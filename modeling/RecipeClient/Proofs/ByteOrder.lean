import RecipeClient.Text.Percent

/-!
# The order of texts by their bytes

Texts are ordered by their characters, one by one. UTF-8 keeps that order: of two characters, the
smaller one has the smaller bytes, whatever follows them. So keys that are sorted as texts are
sorted by their bytes as well.

- `leads_utf8EncodeChar`: the smaller of two characters has the smaller bytes
- `utf8_lt_of_lt`: texts in order have their bytes in order
-/

namespace RecipeClient.Text.Percent

/-- Bytes come before others, whatever stands behind either. -/
def Leads (front other : List UInt8) : Prop :=
  ∀ behind rest : List UInt8, front ++ behind < other ++ rest

namespace Leads

variable {front other : List UInt8} {m n : Nat}

theorem of_lt (h : m < n) (hbyte : n < 256) : Leads (.ofNat m :: front) (.ofNat n :: other) := by
  intro behind rest
  apply List.cons_lt_cons_iff.mpr
  left
  rwa [UInt8.lt_iff_toNat_lt, UInt8.toNat_ofNat_of_lt' (Nat.lt_trans h hbyte),
    UInt8.toNat_ofNat_of_lt' hbyte]

/-- Bytes behind a first one only matter where the first ones are the same. -/
theorem of_le (h : m ≤ n) (hbyte : n < 256) (hrest : m = n → Leads front other) :
    Leads (.ofNat m :: front) (.ofNat n :: other) := by
  rcases Nat.lt_or_eq_of_le h with hlt | rfl
  · exact of_lt hlt hbyte
  · intro behind rest
    exact List.cons_lt_cons_iff.mpr (Or.inr ⟨rfl, hrest rfl behind rest⟩)

end Leads

/-- The smaller of two characters has the smaller bytes. -/
theorem leads_utf8EncodeChar {c d : Char} (h : c < d) :
    Leads (String.utf8EncodeChar c) (String.utf8EncodeChar d) := by
  have hlt : c.val.toNat < d.val.toNat := UInt32.lt_iff_toNat_lt.mp h
  have hbound : d.val.toNat < 0x110000 := by
    rcases d.valid with hd | ⟨-, hd⟩
    · omega
    · exact hd
  dsimp only [String.utf8EncodeChar]
  -- a longer form begins with a greater byte; of equally long forms the first byte that is not
  -- the same is smaller
  repeat' split
  all_goals
    repeat
      first
      | exact Leads.of_lt (by omega) (by omega)
      | refine Leads.of_le (by omega) (by omega) fun hsame => ?_

/-- Texts in order have their bytes in order. -/
theorem utf8_lt_of_lt {cs ds : List Char} (h : cs < ds) : utf8 cs < utf8 ds := by
  induction h with
  | nil =>
    rename_i d ds
    -- no character is without bytes
    have hne : String.utf8EncodeChar d ≠ [] := String.utf8EncodeChar_ne_nil
    obtain ⟨b, bytes, hbytes⟩ := List.exists_cons_of_ne_nil hne
    rw [utf8, utf8, List.flatMap_cons, hbytes]
    exact List.nil_lt_cons ..
  | cons _ ih =>
    rw [utf8, utf8, List.flatMap_cons, List.flatMap_cons]
    exact List.append_left_lt ih
  | rel h =>
    rw [utf8, utf8, List.flatMap_cons, List.flatMap_cons]
    exact leads_utf8EncodeChar h ..

end RecipeClient.Text.Percent
