/-!
# Words as bytes

A 32-bit word travels as four bytes, least significant first. A single-precision number travels as
its IEEE-754 binary32 pattern and is kept as this pattern, so that every value, each NaN included,
survives unchanged.

* `Word.ofBytes_toBytes`, `Word.toBytes_ofBytes`: the two directions undo each other.
-/

namespace RaceSteward

/-- A piece of the wire: raw bytes in order. -/
abbrev Bytes := List UInt8

namespace Word

/-- The four bytes of a word, least significant first. -/
def toBytes (w : UInt32) : Bytes :=
  [UInt8.ofNat w.toNat, UInt8.ofNat (w.toNat / 256), UInt8.ofNat (w.toNat / 65536),
    UInt8.ofNat (w.toNat / 16777216)]

/-- The word whose bytes are `a`, `b`, `c`, `d`, least significant first. -/
def ofBytes (a b c d : UInt8) : UInt32 :=
  UInt32.ofNat (a.toNat + 256 * b.toNat + 65536 * c.toNat + 16777216 * d.toNat)

@[simp] theorem length_toBytes (w : UInt32) : (toBytes w).length = 4 := rfl

theorem toNat_ofBytes (a b c d : UInt8) :
    (ofBytes a b c d).toNat =
      a.toNat + 256 * b.toNat + 65536 * c.toNat + 16777216 * d.toNat := by
  have ha := a.toNat_lt
  have hb := b.toNat_lt
  have hc := c.toNat_lt
  have hd := d.toNat_lt
  simp only [ofBytes, UInt32.toNat_ofNat']
  omega

/-- Reading the four bytes of a word gives the word. -/
theorem ofBytes_toBytes (w : UInt32) :
    ofBytes (UInt8.ofNat w.toNat) (UInt8.ofNat (w.toNat / 256)) (UInt8.ofNat (w.toNat / 65536))
      (UInt8.ofNat (w.toNat / 16777216)) = w := by
  apply UInt32.toNat_inj.mp
  have hw := w.toNat_lt
  simp only [toNat_ofBytes, UInt8.toNat_ofNat']
  omega

/-- Writing the word read from four bytes gives these bytes. -/
theorem toBytes_ofBytes (a b c d : UInt8) : toBytes (ofBytes a b c d) = [a, b, c, d] := by
  have ha := a.toNat_lt
  have hb := b.toNat_lt
  have hc := c.toNat_lt
  have hd := d.toNat_lt
  simp only [toBytes, toNat_ofBytes, List.cons.injEq, and_true]
  refine ⟨?_, ?_, ?_, ?_⟩ <;> apply UInt8.toNat_inj.mp <;> simp only [UInt8.toNat_ofNat'] <;> omega

theorem toBytes_inj {v w : UInt32} : toBytes v = toBytes w ↔ v = w := by
  refine ⟨fun h => ?_, fun h => by rw [h]⟩
  simp only [toBytes, List.cons.injEq, and_true] at h
  obtain ⟨h0, h1, h2, h3⟩ := h
  rw [← ofBytes_toBytes v, h0, h1, h2, h3, ofBytes_toBytes]

/-- Bytes are too few for a word or begin with one. -/
theorem front_cases (bytes : Bytes) :
    bytes.length < 4 ∨ ∃ w rest, bytes = toBytes w ++ rest := by
  match bytes with
  | [] | [_] | [_, _] | [_, _, _] => exact .inl (by simp)
  | a :: b :: c :: d :: rest =>
    refine .inr ⟨ofBytes a b c d, rest, ?_⟩
    rw [toBytes_ofBytes]
    rfl

/-- Too few bytes for a word are the beginning of one. -/
theorem exists_take_toBytes {bytes : Bytes} (h : bytes.length < 4) :
    ∃ w, bytes = (toBytes w).take bytes.length := by
  match bytes with
  | [] => exact ⟨0, rfl⟩
  | [a] => exact ⟨ofBytes a 0 0 0, by rw [toBytes_ofBytes]; rfl⟩
  | [a, b] => exact ⟨ofBytes a b 0 0, by rw [toBytes_ofBytes]; rfl⟩
  | [a, b, c] => exact ⟨ofBytes a b c 0, by rw [toBytes_ofBytes]; rfl⟩
  | a :: b :: c :: d :: rest =>
    simp only [List.length_cons] at h
    omega

end Word

/-- A single-precision number. -/
structure Single where
  bits : UInt32
  deriving DecidableEq, Repr

namespace Single

def zero : Single := ⟨0⟩

end Single

end RaceSteward
