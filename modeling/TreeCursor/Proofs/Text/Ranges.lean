import TreeCursor.Text.Alphanumeric
import TreeCursor.Text.GraphemeExtend
import TreeCursor.Text.Unprintable

/-!
# Classes of characters

The tables of the classes are in increasing order, so that a search by halves looks at the right
half each time.  It finds the range of a code point whenever there is one, and a class holds the
characters with a code point in one of its ranges and no others.
-/

namespace TreeCursor.Text

/-! ## Ranges in order -/

theorem first_le_last_of_increasing {ranges : List (Nat × Nat)}
    (hordered : increasing ranges = true) : ∀ range ∈ ranges, range.1 ≤ range.2 := by
  fun_induction increasing ranges with
  | case1 => exact List.forall_mem_nil _
  | case2 first last => exact List.forall_mem_singleton.mpr (of_decide_eq_true hordered)
  | case3 first last first' last' rest ih =>
      simp only [Bool.and_eq_true, decide_eq_true_eq] at hordered
      exact List.forall_mem_cons.mpr ⟨hordered.1.1, ih hordered.2⟩

theorem pairwise_of_increasing {ranges : List (Nat × Nat)} (hordered : increasing ranges = true) :
    ranges.Pairwise fun range later => range.2 < later.1 := by
  fun_induction increasing ranges with
  | case1 => exact .nil
  | case2 first last => exact List.pairwise_singleton _ _
  | case3 first last first' last' rest ih =>
      simp only [Bool.and_eq_true, decide_eq_true_eq] at hordered
      obtain ⟨⟨-, hgap⟩, hrest⟩ := hordered
      have hnext : first' ≤ last' := first_le_last_of_increasing hrest _ List.mem_cons_self
      refine List.pairwise_cons.mpr ⟨List.forall_mem_cons.mpr ⟨by omega, ?_⟩, ih hrest⟩
      intro range hrange
      have hlater : last' < range.1 := List.rel_of_pairwise_cons (ih hrest) hrange
      omega

/-! ## Search by halves -/

variable {table : Array (Nat × Nat)} {code lo hi : Nat}

theorem exists_of_searchRanges (hfound : searchRanges table code lo hi = true) :
    ∃ range ∈ table.toList, range.1 ≤ code ∧ code ≤ range.2 := by
  fun_induction searchRanges table code lo hi with
  | case1 => cases hfound
  | case2 lo hi hlt mid first last hmid hbefore ih => exact ih hfound
  | case3 lo hi hlt mid first last hmid hbefore hafter ih => exact ih hfound
  | case4 lo hi hlt mid first last hmid hbefore hafter =>
      have hmem : (first, last) ∈ table := Array.mem_of_getElem? hmid
      exact ⟨(first, last), Array.mem_toList_iff.mpr hmem, Nat.le_of_not_lt hbefore,
        Nat.le_of_not_lt hafter⟩
  | case5 => cases hfound

theorem le_of_increasing (hordered : increasing table.toList = true) {i j : Nat}
    {range later : Nat × Nat} (hrange : table[i]? = some range) (hlater : table[j]? = some later)
    (hij : i ≤ j) : range.1 ≤ later.1 ∧ range.2 ≤ later.2 := by
  obtain ⟨hi, rfl⟩ := Array.getElem?_eq_some_iff.mp hrange
  obtain ⟨hj, rfl⟩ := Array.getElem?_eq_some_iff.mp hlater
  obtain rfl | hlt := Nat.eq_or_lt_of_le hij
  · exact ⟨Nat.le_refl _, Nat.le_refl _⟩
  · have hapart : table[i].2 < table[j].1 :=
      List.pairwise_iff_getElem.mp (pairwise_of_increasing hordered) i j hi hj hlt
    have hrange : table[i].1 ≤ table[i].2 :=
      first_le_last_of_increasing hordered _ (Array.getElem_mem_toList hi)
    have hlater : table[j].1 ≤ table[j].2 :=
      first_le_last_of_increasing hordered _ (Array.getElem_mem_toList hj)
    omega

/-- The range of a code point stays between the bounds, since on the other side of the middle all
ranges lie on the other side of the code point too. -/
theorem searchRanges_of_getElem? (hordered : increasing table.toList = true) {index : Nat}
    {range : Nat × Nat} (hindex : table[index]? = some range) (hfirst : range.1 ≤ code)
    (hlast : code ≤ range.2) (hlo : lo ≤ index) (hhi : index < hi) (hsize : hi ≤ table.size) :
    searchRanges table code lo hi = true := by
  fun_induction searchRanges table code lo hi with
  | case1 lo hi hlt mid hmid =>
      have hbeyond : table.size ≤ mid := Array.getElem?_eq_none_iff.mp hmid
      omega
  | case2 lo hi hlt mid first last hmid hbefore ih =>
      have hindex' : index < mid := by
        refine Nat.lt_of_not_le fun hle => ?_
        have hfirst' : first ≤ range.1 := (le_of_increasing hordered hmid hindex hle).1
        omega
      exact ih hlo hindex' (by omega)
  | case3 lo hi hlt mid first last hmid hbefore hafter ih =>
      have hindex' : mid < index := by
        refine Nat.lt_of_not_le fun hle => ?_
        have hlast' : range.2 ≤ last := (le_of_increasing hordered hindex hmid hle).2
        omega
      exact ih hindex' hhi hsize
  | case4 => rfl
  | case5 lo hi hempty => omega

theorem inRanges_iff (hordered : increasing table.toList = true) :
    inRanges table code = true ↔ ∃ range ∈ table.toList, range.1 ≤ code ∧ code ≤ range.2 := by
  constructor
  · exact exists_of_searchRanges
  · rintro ⟨range, hrange, hfirst, hlast⟩
    obtain ⟨index, hindex⟩ := Array.getElem?_of_mem (Array.mem_toList_iff.mp hrange)
    have hsize : index < table.size := (Array.getElem?_eq_some_iff.mp hindex).1
    exact searchRanges_of_getElem? hordered hindex hfirst hlast index.zero_le hsize (Nat.le_refl _)

/-! ## The classes -/

theorem isGraphemeExtend_iff {c : Char} : isGraphemeExtend c = true ↔
    ∃ range ∈ graphemeExtendRanges.toList, range.1 ≤ c.toNat ∧ c.toNat ≤ range.2 :=
  inRanges_iff increasing_graphemeExtendRanges

theorem isUnprintable_iff {c : Char} : isUnprintable c = true ↔
    ∃ range ∈ unprintableRanges.toList, range.1 ≤ c.toNat ∧ c.toNat ≤ range.2 :=
  inRanges_iff increasing_unprintableRanges

/-- Among the letters and numerals are those of ASCII. -/
theorem isAlphanumeric_iff {c : Char} : isAlphanumeric c = true ↔ c.isAlphanum = true ∨
    ∃ range ∈ alphanumericRanges.toList, range.1 ≤ c.toNat ∧ c.toNat ≤ range.2 := by
  rw [isAlphanumeric, Bool.or_eq_true, inRanges_iff increasing_alphanumericRanges]

end TreeCursor.Text
