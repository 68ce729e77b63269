import RaceSteward.Race.Standing
import RaceSteward.Proofs.Json.Fields

/-!
# Standings as text

The text of standings is a JSON object that records every result in order: the id, the nickname, the
place and the reason, and nothing else. Read so, it is the standings again.

* `Race.Standings.ofText?`: the standings that a text records.
* `Race.Standings.ofText?_toText`: the text of standings records them.
-/

namespace RaceSteward

namespace Json

/-- The members of an object in order, and of nothing else. -/
def entries? : Json → Option (List (String × Json))
  | object members => keyed? members
  | _ => none

@[simp] theorem entries?_record (members : List (String × Json)) :
    (record members).entries? = some members :=
  keyed?_bodies members

end Json

open Json

namespace Race

@[simp] theorem DnfReason.ofName?_name (reason : DnfReason) :
    DnfReason.ofName? reason.name = some reason := by
  cases reason <;> decide

namespace Rank

/-- The result that an object records. -/
def ofJson? (j : Json) : Option Rank :=
  match j.entries? with
  | some [("id", id), ("nickname", nickname), ("finish_index", place), ("dnf_reason", reason)] => do
    let reason ← DnfReason.ofName? (← reason.asText?)
    some ⟨← id.asWord?, ← nickname.asText?, ← place.asWord?, reason⟩
  | _ => none

@[simp] theorem ofJson?_toJson (r : Rank) : ofJson? r.toJson = some r := by
  simp [ofJson?, toJson]

theorem written_toJson (r : Rank) : r.toJson.Written := by
  refine .record ?_
  simp [Written.word, Written.string]

end Rank

namespace Standings

/-- The standings that a text records. -/
def ofText? (s : String) : Option Standings := do
  match ← (← parse? s).entries? with
  | [("ranks", .array items)] => some ⟨← items.mapM Rank.ofJson?⟩
  | _ => none

theorem written_toJson (s : Standings) : s.toJson.Written := by
  refine .record (List.forall_mem_singleton.mpr (.array ?_))
  exact List.forall_mem_map.mpr fun r _ => r.written_toJson

theorem ofText?_toText (s : Standings) : ofText? s.toJson.toText = some s := by
  have hranks : (s.ranks.map Rank.toJson).mapM Rank.ofJson? = some s.ranks :=
    (mapM_map_eq_some (k := id) fun r _ => r.ofJson?_toJson).trans
      (congrArg some (List.map_id s.ranks))
  rw [ofText?, s.written_toJson.parse?_toText]
  simp [toJson, hranks]

example : (Standings.mk [⟨2, "\"bo\"", 1, .none⟩, ⟨1, "ann", 0, .cheat⟩]).toJson.toText =
    "\x7b\"ranks\":[" ++
      "\x7b\"id\":2,\"nickname\":\"\\\"bo\\\"\",\"finish_index\":1,\"dnf_reason\":\"None\"\x7d," ++
      "\x7b\"id\":1,\"nickname\":\"ann\",\"finish_index\":0,\"dnf_reason\":\"Cheat\"\x7d]\x7d" := by
  decide +kernel

end Standings

end Race

end RaceSteward
