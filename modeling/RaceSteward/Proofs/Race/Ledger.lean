import RaceSteward.Proofs.Race.Bookkeeping
import RaceSteward.Proofs.Race.Standings

/-!
# A ledger of races

A tracker keeps nothing of the races that have ended. A ledger kept beside it does: which races there
were, with which players, and what was said while they ran. A race ends with the event that decides
its last player, with a stop, or with the start of the next one.

* `Tracker.Kept.step`: the standings a tracker has yielded are the official ones of the races that
  have ended, one for each, and the tracker follows the race that has not.
-/

namespace RaceSteward.Race

open Tracker (Event Op)

/-! ## The ledger -/

/-- A race: the list it started with, and the events since. -/
structure Contest where
  players : List Player
  events : List Event
  deriving DecidableEq, Repr

namespace Contest

/-- Everyone in the race, once. -/
def field (race : Contest) : List Player :=
  Roster.distinct race.players

/-- There was a field, and all of it has been decided. -/
def Over (race : Contest) : Prop :=
  Race.Over race.field race.events

instance (race : Contest) : Decidable race.Over :=
  inferInstanceAs (Decidable (race.field ≠ [] ∧ undecided race.field race.events = []))

/-- The standings, if the race ends now. -/
def official (race : Contest) : List Line :=
  Race.official race.field race.events

def hear (race : Contest) (e : Event) : Contest :=
  { race with events := race.events ++ [e] }

theorem pairwise_field (race : Contest) : race.field.Pairwise fun a b => a.id ≠ b.id :=
  Roster.pairwise_distinct race.players

theorem not_over_start (players : List Player) : ¬ Over ⟨players, []⟩ :=
  fun hover => hover.1 ((undecided_nil _).symm.trans hover.2)

end Contest

/-- The races so far, in the order of their starts. -/
structure Ledger where
  ended : List Contest
  /-- The race under way. -/
  current : Option Contest
  deriving DecidableEq, Repr

namespace Ledger

def empty : Ledger := ⟨[], none⟩

/-- All races, the one under way last. -/
def races (l : Ledger) : List Contest :=
  l.ended ++ l.current.toList

/-- The race under way ends. -/
def close (l : Ledger) : Ledger :=
  ⟨l.races, none⟩

/-- A race starts, which ends the one under way. -/
def begin (l : Ledger) (players : List Player) : Ledger :=
  ⟨l.races, some ⟨players, []⟩⟩

/-- An event of the race under way; the race ends if the event decides its last player. -/
def hear (l : Ledger) (e : Event) : Ledger :=
  match l.current with
  | none => l
  | some race =>
    if (race.hear e).Over then ⟨l.ended ++ [race.hear e], none⟩ else ⟨l.ended, some (race.hear e)⟩

def note (l : Ledger) : Op → Ledger
  | .start players => l.begin players
  | .stop => l.close
  | .observe e => l.hear e

/-- The ledger of a new tracker's operations. -/
def ofOps (ops : List Op) : Ledger :=
  ops.foldl note empty

/-! ## The races of a ledger are the lists of the starts -/

theorem players_hear (l : Ledger) (e : Event) :
    (l.hear e).races.map (·.players) = l.races.map (·.players) := by
  obtain ⟨ended, current⟩ := l
  cases current with
  | none => rfl
  | some race =>
    dsimp only [hear]
    split <;> simp [races, Contest.hear]

theorem players_note (l : Ledger) (op : Op) :
    (l.note op).races.map (·.players) = l.races.map (·.players) ++ op.started?.toList := by
  cases op with
  | start players => exact List.map_append
  | stop => exact (congrArg (List.map _) (List.append_nil _)).trans (List.append_nil _).symm
  | observe e => exact (l.players_hear e).trans (List.append_nil _).symm

theorem players_foldl (l : Ledger) (ops : List Op) :
    (ops.foldl note l).races.map (·.players) = l.races.map (·.players) ++ Tracker.lists ops := by
  induction ops generalizing l with
  | nil => exact (List.append_nil _).symm
  | cons op ops ih =>
    rw [List.foldl_cons, ih, players_note, Tracker.lists_cons, List.append_assoc]

end Ledger

/-! ## The ledger and the tracker -/

/-- The tracker follows the race under way, or there is none and nothing left of one. -/
def Racing (t : Tracker) : Option Contest → Prop
  | none => t.AtRest
  | some race => Follows race.field race.events t ∧ ¬ race.Over ∧ race.field.length < 4294967295

/-- The standings are the official ones of these races. -/
def Official (yielded : List Standings) (ended : List Contest) : Prop :=
  yielded.map (·.ranks.map Rank.line) = ended.map Contest.official

/-- The standings a tracker has yielded are those of the races that have ended, and it follows the one
that has not. -/
structure Recorded (l : Ledger) (yielded : List Standings) (t : Tracker) : Prop where
  racing : Racing t l.current
  official : Official yielded l.ended

variable {l : Ledger} {yielded : List Standings} {t : Tracker}

theorem Racing.sound {current : Option Contest} (h : Racing t current) : t.Sound := by
  intro hidle
  cases current with
  | none => exact h
  | some race =>
    rw [h.1.phase] at hidle
    cases hidle

theorem Official.concat {ended : List Contest} {standings : Standings} {race : Contest}
    (h : Official yielded ended) (hlines : standings.ranks.map Rank.line = race.official) :
    Official (yielded ++ [standings]) (ended ++ [race]) := by
  rw [Official, List.map_append, List.map_append, h, List.map_singleton, List.map_singleton, hlines]

namespace Recorded

theorem new : Recorded .empty [] Tracker.new :=
  ⟨⟨rfl, rfl, rfl⟩, rfl⟩

theorem isSome_current (h : Recorded l yielded t) : l.current.isSome = t.isRecording := by
  obtain ⟨ended, current⟩ := l
  cases current with
  | none => rw [Tracker.isRecording, show t.phase = .idle from h.racing.phase]; rfl
  | some race => rw [Tracker.isRecording, show t.phase = .recording from h.racing.1.phase]; rfl

theorem stop (h : Recorded l yielded t) :
    Recorded l.close (yielded ++ t.stop.1.toList) t.stop.2 := by
  obtain ⟨ended, current⟩ := l
  obtain ⟨hracing, hofficial⟩ := h
  cases current with
  | none =>
    rw [Tracker.stop_of_idle hracing.phase, Option.toList_none, List.append_nil]
    refine ⟨hracing, ?_⟩
    rw [Ledger.close, Ledger.races, Option.toList_none, List.append_nil]
    exact hofficial
  | some race =>
    obtain ⟨standings, hlines, hsome, hrest⟩ := hracing.1.stop
    rw [hsome]
    exact ⟨hrest, hofficial.concat hlines⟩

theorem start (h : Recorded l yielded t) {players : List Player}
    (hlen : (Roster.distinct players).length < 4294967295) :
    Recorded (l.begin players) (yielded ++ (t.start players).1.toList) (t.start players).2 where
  racing := ⟨follows_start h.racing.sound players, Contest.not_over_start players, hlen⟩
  official := h.stop.official

theorem observe (h : Recorded l yielded t) (e : Event) :
    Recorded (l.hear e) (yielded ++ (t.observe e).1.toList) (t.observe e).2 := by
  obtain ⟨ended, current⟩ := l
  obtain ⟨hracing, hofficial⟩ := h
  cases current with
  | none =>
    rw [Tracker.observe_atRest hracing, Option.toList_none, List.append_nil]
    exact ⟨hracing, hofficial⟩
  | some race =>
    obtain ⟨hfollows, hopen, hlen⟩ := hracing
    obtain ⟨hstays, hends⟩ := hfollows.observe race.pairwise_field hlen hopen e
    dsimp only [Ledger.hear]
    split
    · rename_i hover
      obtain ⟨standings, hlines, hsome, hrest⟩ := hends hover
      rw [hsome]
      exact ⟨hrest, hofficial.concat hlines⟩
    · rename_i hstill
      obtain ⟨hnone, hnext⟩ := hstays hstill
      rw [hnone, Option.toList_none, List.append_nil]
      exact ⟨⟨hnext, hstill, hlen⟩, hofficial⟩

theorem step (h : Recorded l yielded t) (op : Op)
    (hlen : ∀ players ∈ op.started?, (Roster.distinct players).length < 4294967295) :
    Recorded (l.note op) (yielded ++ (t.step op).1.toList) (t.step op).2 := by
  cases op with
  | start players => exact h.start (hlen players rfl)
  | stop => exact h.stop
  | observe e => exact h.observe e

theorem length_races (h : Recorded l yielded t) :
    l.races.length = yielded.length + if l.current.isSome then 1 else 0 := by
  have hlength := congrArg List.length h.official
  rw [List.length_map, List.length_map] at hlength
  rw [Ledger.races, List.length_append, ← hlength]
  cases l.current <;> rfl

/-- The standings yielded at an index are those of the race there, with one line for each player. -/
theorem getElem? (h : Recorded l yielded t) {i : Nat} {s : Standings} (hs : yielded[i]? = some s) :
    ∃ race, l.races[i]? = some race ∧ s.ranks.map Rank.line = race.official ∧
      (s.ranks.map (·.id)).Perm (race.field.map (·.id)) := by
  have hlines := congrArg (·[i]?) h.official
  simp only [List.getElem?_map, hs, Option.map_some] at hlines
  obtain ⟨race, hrace, hofficial⟩ := Option.map_eq_some_iff.mp hlines.symm
  refine ⟨race, ?_, hofficial.symm, ?_⟩
  · rw [Ledger.races, List.getElem?_append_left (List.getElem?_eq_some_iff.mp hrace).1, hrace]
  · have hids := perm_ids_official race.pairwise_field race.events
    rw [show Race.official race.field race.events = _ from hofficial, List.map_map] at hids
    exact hids

end Recorded

end RaceSteward.Race
