import RaceSteward.Wire.Layout
import RaceSteward.Proofs.Wire.Requests

/-!
# What was put is what is read

Each item is asked for by a request of its kind (`Item.request`). A writer puts the items of fields one
after another, and the same requests are made at a cursor before what it has written:

* `Cursor.replays_puts`: they are answered by the items in their order, the cursor keeps pace with the
  writer, and it ends before whatever stands behind.
-/

namespace RaceSteward

/-- The request that an item answers. -/
def Item.request (name : String) : Item → Request
  | byte _ => .byte name
  | word _ => .word name
  | int _ => .int name
  | single _ => .single name
  | text _ => .text name
  | opcode op => .opcode op

namespace Field

def request (f : Field) : Request :=
  f.item.request f.name

/-- What becomes of the item of a field on its journey. -/
def arrived (f : Field) : Item :=
  f.item.narrow

end Field

/-- A writer that has put the items of fields, and nothing else. -/
def Item.Writer.ofFields (fields : List Field) : Writer :=
  empty.puts (fields.map (·.item))

open Item (Writer)

variable {fields : List Field} {i j : Nat}

/-! ## What a writer has put -/

theorem Field.concat_append (before after : List Field) :
    concat (before ++ after) = concat before ++ concat after := by
  rw [concat, List.map_append, Item.concat_append]
  rfl

theorem Item.Writer.bytes_ofFields (fields : List Field) :
    (ofFields fields).bytes = Field.concat fields := by
  rw [ofFields, bytes_puts]
  rfl

theorem Item.Writer.bytes_prefix (fields : List Field) (h : i ≤ j) :
    (ofFields (fields.take i)).bytes <+: (ofFields (fields.take j)).bytes := by
  obtain ⟨more, hmore⟩ : fields.take i <+: fields.take j := List.take_prefix_take_left h
  refine ⟨Field.concat more, ?_⟩
  rw [bytes_ofFields, bytes_ofFields, ← hmore, Field.concat_append]

theorem Item.Writer.bytes_append (fields : List Field) (i : Nat) (t : Bytes) :
    (ofFields fields).bytes ++ t =
      Field.concat (fields.take i) ++ (Field.concat (fields.drop i) ++ t) := by
  rw [bytes_ofFields, ← List.append_assoc, ← Field.concat_append, List.take_append_drop]

/-! ## Requests for what was put -/

theorem Item.consumes_request {item : Item} (h : item.Fits) (name : String) (left : Bytes) :
    (item.request name).Consumes item.bytes left (.ok item.narrow) := by
  cases item with
  | byte v => exact .byte name v left
  | word v => exact .word name v left
  | int v => exact .int name v.toUInt32 left
  | single v => exact .single name v.bits left
  | text s =>
    have hcount : (Text.encode s).length = (UInt32.ofNat s.length).toNat := by
      rw [Text.length_encode, UInt32.toNat_ofNat', Nat.mod_eq_of_lt h]
    have hconsumes := Request.Consumes.text name left hcount
    rwa [Text.decode_encode] at hconsumes
  | opcode op => exact .opcode op left

theorem Cursor.run_requests (h : ∀ f ∈ fields, f.item.Fits) (n : Nat) (left : Bytes) :
    Cursor.run ⟨n, Field.concat fields ++ left⟩ (fields.map Field.request) =
      (fields.map (.ok ·.arrived), ⟨n + (Field.concat fields).length, left⟩) := by
  induction fields generalizing n with
  | nil => rfl
  | cons f fields ih =>
    obtain ⟨hf, hfields⟩ := List.forall_mem_cons.mp h
    have hread := (Item.consumes_request hf f.name (Field.concat fields ++ left)).read n
    rw [Field.concat_cons, List.append_assoc, List.map_cons, Cursor.run_cons, Field.request, hread,
      ih hfields, List.length_append, Nat.add_assoc]
    rfl

/-- Whatever is put, and whatever stands behind it, the same requests in the same order are answered
by the items, each with the bytes of its put. -/
theorem Cursor.replays_puts (fields : List Field) (h : ∀ f ∈ fields, f.item.Fits) (t : Bytes) :
    let c := Cursor.start ((Writer.ofFields fields).bytes ++ t)
    c.run (fields.map Field.request) =
        (fields.map (.ok ·.arrived), ⟨(Writer.ofFields fields).length, t⟩) ∧
      (∀ i, (c.run ((fields.take i).map Field.request)).2.position =
        (Writer.ofFields (fields.take i)).length) ∧
      ∀ i j, i ≤ j →
        (Writer.ofFields (fields.take i)).bytes <+: (Writer.ofFields (fields.take j)).bytes := by
  intro c
  refine ⟨?_, fun i => ?_, fun i j hij => Writer.bytes_prefix fields hij⟩
  · have hrun := run_requests h 0 t
    rwa [Nat.zero_add, ← Writer.bytes_ofFields] at hrun
  · -- what is put later stands behind, like `t`
    have htake : ∀ f ∈ fields.take i, f.item.Fits := fun f hf => h f (List.mem_of_mem_take hf)
    have hrun := run_requests htake 0 (Field.concat (fields.drop i) ++ t)
    rw [Nat.zero_add, ← Writer.bytes_append, ← Writer.bytes_ofFields] at hrun
    exact congrArg (·.2.position) hrun

/-- An item of each kind, among them a text with a character above `U+00FF`, a NaN and an integer below
zero, and behind them two bytes that are no item. -/
theorem Cursor.replays_puts_mixed :
    let fields : List Field := [⟨"opcode", .opcode .chat⟩, ⟨"content", .text "Zoë€"⟩,
      ⟨"x", .single ⟨2143289345⟩⟩, ⟨"score", .int (-2)⟩, ⟨"player_id", .word 4294967295⟩,
      ⟨"cheated", .byte 171⟩]
    (∀ f ∈ fields, f.item.Fits) ∧
      (Cursor.start ((Writer.ofFields fields).bytes ++ [5, 0])).run (fields.map Field.request) =
        ([.ok (.opcode .chat), .ok (.text "Zoë?"), .ok (.single ⟨2143289345⟩), .ok (.int (-2)),
          .ok (.word 4294967295), .ok (.byte 171)], ⟨25, [5, 0]⟩) := by
  intro fields
  have hfits : ∀ f ∈ fields, f.item.Fits := by decide
  exact ⟨hfits, (replays_puts fields hfits [5, 0]).1⟩

end RaceSteward
