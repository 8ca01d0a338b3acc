import Mathlib.Data.UInt

/-!
# UTF-16

A text as a list of 16-bit units. A character that one unit does not hold is a pair, whose units are none of
the others': so different texts have different units.
-/
namespace Braidcast.Lib

abbrev JsString := List UInt16

def charUnits (c : Char) : JsString :=
  if c.toNat < 0x10000 then [UInt16.ofNat c.toNat]
  else [UInt16.ofNat (0xD800 + (c.toNat - 0x10000) / 0x400), UInt16.ofNat (0xDC00 + (c.toNat - 0x10000) % 0x400)]

def utf16 (s : String) : JsString := s.toList.flatMap charUnits

theorem utf16_append (s t : String) : utf16 (s ++ t) = utf16 s ++ utf16 t := by
  rw [utf16, String.toList_append, List.flatMap_append]
  rfl

theorem charUnits_ne_nil (c : Char) : charUnits c ≠ [] := by
  unfold charUnits
  split
  · exact List.cons_ne_nil _ _
  · exact List.cons_ne_nil _ _

theorem utf16_eq_nil_iff {s : String} : utf16 s = [] ↔ s = "" := by
  rw [utf16, List.flatMap_eq_nil_iff]
  constructor
  · intro none
    refine String.toList_eq_nil_iff.mp (List.eq_nil_iff_forall_not_mem.mpr ?_)
    exact fun c member => charUnits_ne_nil c (none c member)
  · rintro rfl c member
    exact absurd member List.not_mem_nil

/-- A code point is below the surrogates or above them. -/
theorem toNat_scalar (c : Char) : c.toNat < 0xD800 ∨ (0xDFFF < c.toNat ∧ c.toNat < 0x110000) := c.valid

theorem unit_inj {m n : Nat} (less : m < 0x10000) (less' : n < 0x10000) (same : UInt16.ofNat m = UInt16.ofNat n) : m = n := by
  have values := congrArg UInt16.toNat same
  rwa [UInt16.toNat_ofNat_of_lt' less, UInt16.toNat_ofNat_of_lt' less'] at values

/-- The units of a character end before the next one begins. -/
theorem charUnits_cancel {c d : Char} {xs ys : JsString} (same : charUnits c ++ xs = charUnits d ++ ys) : c = d ∧ xs = ys := by
  have code := toNat_scalar c
  have code' := toNat_scalar d
  unfold charUnits at same
  by_cases short : c.toNat < 0x10000
  · rw [if_pos short] at same
    by_cases short' : d.toNat < 0x10000
    · rw [if_pos short'] at same
      obtain ⟨first, rest⟩ := List.cons.inj same
      exact ⟨Char.toNat_inj.mp (unit_inj short short' first), rest⟩
    · rw [if_neg short'] at same
      have first := unit_inj short (by omega) (List.cons.inj same).1
      omega
  · rw [if_neg short] at same
    by_cases short' : d.toNat < 0x10000
    · rw [if_pos short'] at same
      have first := unit_inj (by omega) short' (List.cons.inj same).1
      omega
    · rw [if_neg short'] at same
      obtain ⟨high, rest⟩ := List.cons.inj same
      obtain ⟨low, rest⟩ := List.cons.inj rest
      have first := unit_inj (by omega) (by omega) high
      have second := unit_inj (by omega) (by omega) low
      exact ⟨Char.toNat_inj.mp (by omega), rest⟩

theorem utf16_inj {s t : String} : utf16 s = utf16 t ↔ s = t := by
  constructor
  · intro same
    refine String.toList_inj.mp ?_
    unfold utf16 at same
    generalize s.toList = cs at same ⊢
    generalize t.toList = ds at same ⊢
    induction cs generalizing ds with
    | nil =>
      cases ds with
      | nil => rfl
      | cons d ds =>
        rw [List.flatMap_nil, List.flatMap_cons] at same
        exact absurd (List.append_eq_nil_iff.mp same.symm).1 (charUnits_ne_nil d)
    | cons c cs ih =>
      cases ds with
      | nil =>
        rw [List.flatMap_nil, List.flatMap_cons] at same
        exact absurd (List.append_eq_nil_iff.mp same).1 (charUnits_ne_nil c)
      | cons d ds =>
        rw [List.flatMap_cons, List.flatMap_cons] at same
        obtain ⟨rfl, rest⟩ := charUnits_cancel same
        rw [ih ds rest]
  · exact congrArg utf16

end Braidcast.Lib
