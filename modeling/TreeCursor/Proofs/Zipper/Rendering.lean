import TreeCursor.Json.Printer
import TreeCursor.Proofs.Json.Reading

/-!
# What a shown cursor tells

The text of the node in focus stands between marks, and it may hold the characters of the marks
itself.  Yet no text of a document begins or ends with one of them, whether it is the compact one or
the one that names the constructors, and neither does a text that is cut, which ends in an ellipsis.
So the marks can be told from the text, and from what is shown one knows the marks and the text.
-/

namespace TreeCursor

/-- A character with which no mark before a text begins and no mark after it ends. -/
def Unmarked (c : Char) : Prop :=
  c ≠ 'r' ∧ c ≠ '‹' ∧ c ≠ '›'

instance (c : Char) : Decidable (Unmarked c) :=
  inferInstanceAs (Decidable (c ≠ 'r' ∧ c ≠ '‹' ∧ c ≠ '›'))

/-- A text that neither begins like a mark before it nor ends like one after it. -/
structure StandsClear (text : List Char) : Prop where
  head : ∀ c ∈ text.head?, Unmarked c
  last : ∀ c ∈ text.getLast?, Unmarked c

theorem standsClear_of_forall {text : List Char} (htext : ∀ c ∈ text, Unmarked c) :
    StandsClear text where
  head c hc := htext c (List.mem_of_head? hc)
  last c hc := htext c (List.mem_of_getLast? hc)

theorem standsClear_of_between {first last : Char} (hfirst : Unmarked first)
    (hlast : Unmarked last) (between : List Char) :
    StandsClear (first :: (between ++ [last])) where
  head c hc := by
    cases hc
    exact hfirst
  last c hc := by
    rw [← List.cons_append, List.getLast?_concat] at hc
    cases hc
    exact hlast

/-! ## Texts of documents -/

section Numbers

/-- The characters that numbers are written with. -/
def NumberChar (c : Char) : Prop :=
  c.isDigit ∨ c ∈ ['-', '+', '.', 'e']

instance (c : Char) : Decidable (NumberChar c) :=
  inferInstanceAs (Decidable (c.isDigit ∨ c ∈ ['-', '+', '.', 'e']))

theorem unmarked_of_numberChar {c : Char} (hc : NumberChar c) : Unmarked c := by
  refine ⟨?_, ?_, ?_⟩ <;> rintro rfl <;> exact absurd hc (by decide)

theorem numberChar_of_mem_toDigits {n : ℕ} : ∀ c ∈ Nat.toDigits 10 n, NumberChar c :=
  fun _ hc => .inl (Json.isDigit_of_mem_toDigits hc)

theorem numberChar_zero : NumberChar '0' :=
  .inl rfl

theorem numberChar_point : NumberChar '.' :=
  .inr (by decide)

theorem numberChar_of_mem_exponentText (exponent : ℤ) :
    ∀ c ∈ Double.exponentText exponent, NumberChar c := by
  rw [Double.exponentText, List.forall_mem_cons]
  refine ⟨?_, numberChar_of_mem_toDigits⟩
  split
  · exact .inr (by decide)
  · exact .inr (by decide)

theorem numberChar_of_mem_zeros (n : ℕ) : ∀ c ∈ Double.zeros n, NumberChar c := by
  intro c hc
  rw [List.eq_of_mem_replicate hc]
  exact numberChar_zero

theorem numberChar_of_mem_layout (decimal : Decimal) :
    ∀ c ∈ Double.layout decimal, NumberChar c := by
  have hdigits : ∀ c ∈ Nat.toDigits 10 decimal.digits, NumberChar c := numberChar_of_mem_toDigits
  rw [Double.layout]
  generalize Nat.toDigits 10 decimal.digits = digits at hdigits
  split_ifs
  · rw [List.forall_mem_append, List.forall_mem_append, List.forall_mem_cons,
      List.forall_mem_singleton]
    exact ⟨⟨hdigits, numberChar_of_mem_zeros _⟩, numberChar_point, numberChar_zero⟩
  · rw [List.forall_mem_append, List.forall_mem_cons]
    exact ⟨fun c hc => hdigits c (List.mem_of_mem_take hc), numberChar_point,
      fun c hc => hdigits c (List.mem_of_mem_drop hc)⟩
  · rw [List.forall_mem_cons, List.forall_mem_cons, List.forall_mem_append]
    exact ⟨numberChar_zero, numberChar_point, numberChar_of_mem_zeros _, hdigits⟩
  · cases digits with
    | nil => exact List.forall_mem_nil _
    | cons digit others =>
        rw [List.forall_mem_cons] at hdigits
        cases others with
        | nil =>
            rw [List.forall_mem_cons, List.forall_mem_cons]
            exact ⟨hdigits.1, by decide, numberChar_of_mem_exponentText _⟩
        | cons other others =>
            rw [List.forall_mem_cons, List.forall_mem_cons]
            refine ⟨hdigits.1, numberChar_point, List.forall_mem_append.mpr ⟨hdigits.2, ?_⟩⟩
            rw [List.forall_mem_cons]
            exact ⟨by decide, numberChar_of_mem_exponentText _⟩

theorem numberChar_of_mem_text (number : Number) : ∀ c ∈ number.text, NumberChar c := by
  cases number with
  | int value inRange =>
      rw [Number.text, Int.toString_eq_repr, Int.repr_eq_if]
      split
      · rw [Nat.repr_eq_ofList_toDigits, String.toList_ofList]
        exact numberChar_of_mem_toDigits
      · rw [Nat.repr_eq_ofList_toDigits, String.toList_append, List.forall_mem_append]
        refine ⟨List.forall_mem_singleton.mpr (.inr (by decide)), ?_⟩
        rw [String.toList_ofList]
        exact numberChar_of_mem_toDigits
  | double value =>
      rw [Number.text, Double.text, List.forall_mem_append]
      constructor
      · split
        · exact List.forall_mem_singleton.mpr (.inr (by decide))
        · exact List.forall_mem_nil _
      · split
        · rw [List.forall_mem_cons, List.forall_mem_cons, List.forall_mem_singleton]
          exact ⟨numberChar_zero, numberChar_point, numberChar_zero⟩
        · exact numberChar_of_mem_layout _

end Numbers

theorem standsClear_compact (value : Json) : StandsClear value.compact := by
  cases value with
  | null => exact standsClear_of_between (by decide) (by decide) ['u', 'l']
  | bool value =>
      cases value with
      | false => exact standsClear_of_between (by decide) (by decide) ['a', 'l', 's']
      | true => exact standsClear_of_between (by decide) (by decide) ['r', 'u']
  | number value =>
      exact standsClear_of_forall fun c hc =>
        unmarked_of_numberChar (numberChar_of_mem_text value c hc)
  | string value => exact standsClear_of_between (by decide) (by decide) _
  | array items => exact standsClear_of_between (by decide) (by decide) _
  | object members => exact standsClear_of_between (by decide) (by decide) _

theorem standsClear_constructors (value : Json) : StandsClear value.constructors := by
  cases value with
  | null => exact standsClear_of_between (by decide) (by decide) ['u', 'l']
  | bool value => exact standsClear_of_between (by decide) (by decide) _
  | number value => exact standsClear_of_between (by decide) (by decide) _
  | string value => exact standsClear_of_between (by decide) (by decide) _
  | array items => exact standsClear_of_between (by decide) (by decide) _
  | object members => exact standsClear_of_between (by decide) (by decide) _

/-- The text of a node in a mode. -/
def DisplayMode.text {α : Type*} [Shown α] (mode : DisplayMode) (node : α) : String :=
  match mode with
  | .formatted => Shown.formatted node
  | .raw => Shown.raw node

theorem standsClear_text (mode : DisplayMode) (document : Document) :
    StandsClear (mode.text document).toList := by
  cases mode with
  | formatted =>
      change StandsClear (String.ofList document.value.compact).toList
      rw [String.toList_ofList]
      exact standsClear_compact document.value
  | raw =>
      change StandsClear (String.ofList document.value.constructors).toList
      rw [String.toList_ofList]
      exact standsClear_constructors document.value

/-! ## Cut texts -/

/-- What is left of a text under a width.  It is characters that are counted. -/
structure CutTo (maxWidth : Option ℕ) (text cut : String) : Prop where
  whole : (∀ width ∈ maxWidth, text.length ≤ width) → cut = text
  shortened : ∀ width ∈ maxWidth, width < text.length →
    cut.toList = text.toList.take (width - 1) ++ ['…']
  fits : ∀ width ∈ maxWidth, 1 ≤ width → cut.length ≤ width

theorem cutTo_ellipsize (maxWidth : Option ℕ) (text : String) :
    CutTo maxWidth text (ellipsize maxWidth text) := by
  cases maxWidth with
  | none => exact ⟨fun _ => rfl, nofun, nofun⟩
  | some width =>
      by_cases hlong : width < text.length
      · have hcut : ellipsize (some width) text =
            String.ofList (text.toList.take (width - 1) ++ ['…']) := if_pos hlong
        refine ⟨fun hshort => absurd (hshort width rfl) hlong.not_ge, ?_, ?_⟩
        · rintro _ ⟨⟩ -
          rw [hcut, String.toList_ofList]
        · rintro _ ⟨⟩ hwidth
          rw [hcut, String.length_ofList, List.length_append, List.length_take]
          simp only [List.length_singleton]
          omega
      · have hcut : ellipsize (some width) text = text := if_neg hlong
        refine ⟨fun _ => hcut, ?_, ?_⟩
        · rintro _ ⟨⟩ hlong'
          exact absurd hlong' hlong
        · rintro _ ⟨⟩ -
          rw [hcut]
          exact Nat.le_of_not_lt hlong

/-- A text may be followed by one that does not begin like a mark either. -/
theorem unmarked_of_head?_append {text rest : List Char} (htext : ∀ c ∈ text.head?, Unmarked c)
    (hrest : ∀ c ∈ rest.head?, Unmarked c) : ∀ c ∈ (text ++ rest).head?, Unmarked c := by
  cases text with
  | nil => exact hrest
  | cons c text => exact htext

theorem standsClear_ellipsize (maxWidth : Option ℕ) {text : String}
    (htext : StandsClear text.toList) : StandsClear (ellipsize maxWidth text).toList := by
  have hcut := cutTo_ellipsize maxWidth text
  by_cases hshort : ∀ width ∈ maxWidth, text.length ≤ width
  · rwa [hcut.whole hshort]
  · push Not at hshort
    obtain ⟨width, hwidth, hlong⟩ := hshort
    rw [hcut.shortened width hwidth hlong]
    have hlast : Unmarked '…' := by decide
    constructor
    case head =>
      apply unmarked_of_head?_append
      · intro c hc
        rw [List.head?_take] at hc
        split at hc
        · cases hc
        · exact htext.head c hc
      · rintro _ ⟨⟩
        exact hlast
    case last =>
      rw [List.getLast?_concat]
      rintro _ ⟨⟩
      exact hlast

/-! ## Marks -/

/-- A mark where it is set. -/
def markIf (set : Bool) (mark : List Char) : List Char :=
  if set then mark else []

theorem markIf_append_inj {set set' : Bool} {first : Char} {mark text text' : List Char}
    (htext : text.head? ≠ some first) (htext' : text'.head? ≠ some first)
    (heq : markIf set (first :: mark) ++ text = markIf set' (first :: mark) ++ text') :
    set = set' ∧ text = text' := by
  cases set <;> cases set'
  case false.false => exact ⟨rfl, heq⟩
  case false.true => exact absurd (congrArg List.head? heq) htext
  case true.false => exact absurd (congrArg List.head? heq.symm) htext'
  case true.true => exact ⟨rfl, List.append_cancel_left heq⟩

theorem append_markIf_inj {set set' : Bool} {last : Char} (mark : List Char)
    {text text' : List Char} (htext : text.getLast? ≠ some last)
    (htext' : text'.getLast? ≠ some last)
    (heq : text ++ markIf set (mark ++ [last]) = text' ++ markIf set' (mark ++ [last])) :
    set = set' ∧ text = text' := by
  have hreverse (set : Bool) :
      (markIf set (mark ++ [last])).reverse = markIf set (last :: mark.reverse) := by
    cases set
    · rfl
    · exact List.reverse_concat
  have heq' := congrArg List.reverse heq
  rw [List.reverse_append, List.reverse_append, hreverse, hreverse] at heq'
  rw [← List.head?_reverse] at htext htext'
  obtain ⟨hset, hnode⟩ := markIf_append_inj htext htext' heq'
  exact ⟨hset, List.reverse_inj.mp hnode⟩

/-- After the mark of the root comes the text or the mark before it. -/
theorem head?_markIf_append_ne {set : Bool} {text : List Char}
    (htext : ∀ c ∈ text.head?, Unmarked c) :
    (markIf set "‹ ".toList ++ text).head? ≠ some 'r' := by
  cases set
  case false => exact fun hr => (htext 'r' hr).1 rfl
  case true => exact fun hr => absurd (Option.some.inj hr) (by decide)

/-- Were the text empty, a blank or the closing bracket would begin what is shown of it. -/
theorem StandsClear.head?_closed {set : Bool} {text : List Char} (htext : StandsClear text) :
    ∀ c ∈ (text ++ markIf set " ›".toList ++ ['>']).head?, Unmarked c := by
  rw [List.append_assoc]
  apply unmarked_of_head?_append htext.head
  cases set <;> rintro _ ⟨⟩ <;> decide

namespace Zipper

section Shown

variable {α : Type*} [Shown α] (style : DisplayStyle)

theorem renderNode_eq (z : Zipper α) :
    z.renderNode style = ellipsize style.maxWidth (style.mode.text z.focus) :=
  rfl

theorem toList_render (z : Zipper α) :
    (z.render style).toList = "#Zipper<".toList ++
      (markIf (style.markers && z.isRoot) "root ".toList ++
        (markIf (style.markers && z.hasLeft) "‹ ".toList ++
          ((z.renderNode style).toList ++ markIf (style.markers && z.hasRight) " ›".toList ++
            ['>']))) := by
  have hmark (set : Bool) (mark : String) :
      (if set then mark else "").toList = markIf set mark.toList := by
    cases set <;> rfl
  rw [render]
  simp only [String.toList_append, hmark, List.append_assoc]
  rfl

/-- Where no text of a node begins or ends like a mark, all that is shown can be read off. -/
theorem eq_of_render_eq {z w : Zipper α} (hz : StandsClear (z.renderNode style).toList)
    (hw : StandsClear (w.renderNode style).toList) (heq : w.render style = z.render style) :
    w.renderNode style = z.renderNode style ∧
      (style.markers && w.isRoot) = (style.markers && z.isRoot) ∧
      (style.markers && w.hasLeft) = (style.markers && z.hasLeft) ∧
      (style.markers && w.hasRight) = (style.markers && z.hasRight) := by
  -- The marks come off from the outside, since each is followed by nothing that begins like it.
  have hshown := congrArg String.toList heq
  rw [toList_render, toList_render, List.append_cancel_left_eq] at hshown
  obtain ⟨hroot, hafterRoot⟩ := markIf_append_inj (head?_markIf_append_ne hw.head?_closed)
    (head?_markIf_append_ne hz.head?_closed) hshown
  obtain ⟨hleft, hafterLeft⟩ := markIf_append_inj (fun hc => (hw.head?_closed _ hc).2.1 rfl)
    (fun hc => (hz.head?_closed _ hc).2.1 rfl) hafterRoot
  obtain ⟨hright, htext⟩ := append_markIf_inj [' '] (fun hc => (hw.last '›' hc).2.2 rfl)
    (fun hc => (hz.last '›' hc).2.2 rfl) (List.append_cancel_right hafterLeft)
  exact ⟨String.toList_injective htext, hroot, hleft, hright⟩

end Shown

theorem standsClear_renderNode (style : DisplayStyle) (z : Zipper Document) :
    StandsClear (z.renderNode style).toList := by
  rw [renderNode_eq]
  exact standsClear_ellipsize style.maxWidth (standsClear_text style.mode z.focus)

/-- Every document is shown within the width.  From what is shown one can tell the text of the node,
as far as it is shown, and with marks also whether the cursor is at the root and on which sides it
has siblings. -/
theorem render_tells_node_and_marks (style : DisplayStyle) (z : Zipper Document) :
    CutTo style.maxWidth (style.mode.text z.focus) (z.renderNode style) ∧
    ∀ w : Zipper Document, w.render style = z.render style →
      w.renderNode style = z.renderNode style ∧
      (style.markers → w.isRoot = z.isRoot ∧ w.hasLeft = z.hasLeft ∧ w.hasRight = z.hasRight) := by
  refine ⟨?_, fun w heq => ?_⟩
  · rw [renderNode_eq]
    exact cutTo_ellipsize style.maxWidth _
  · obtain ⟨hnode, hmarks⟩ := eq_of_render_eq style (standsClear_renderNode style z)
      (standsClear_renderNode style w) heq
    refine ⟨hnode, fun hmarkers => ?_⟩
    simpa only [hmarkers, Bool.true_and] using hmarks

/-- Two texts with marks in them, which differ only where they are cut. -/
theorem render_tells_node_and_marks_of_marks_in_text :
    let style : DisplayStyle := ⟨.formatted, true, some 5⟩
    let place (text : String) : Zipper Document :=
      ⟨.string text, [⟨.array [.null, .string text], .ofList [.null], .ofList []⟩]⟩
    let z := place "‹ › left"
    let w := place "‹ › right"
    z.focus.compact ≠ w.focus.compact ∧ w.render style = "#Zipper<‹ \"‹ ›…>" ∧
      w.render style = z.render style ∧ (z.renderNode style).length ≤ 5 ∧
      w.renderNode style = z.renderNode style ∧ w.isRoot = z.isRoot ∧
      w.hasLeft = z.hasLeft ∧ w.hasRight = z.hasRight := by
  intro style place z w
  have heq : w.render style = z.render style := by decide +kernel
  obtain ⟨hcut, htells⟩ := render_tells_node_and_marks style z
  obtain ⟨hnode, hmarks⟩ := htells w heq
  exact ⟨by decide +kernel, by decide +kernel, heq, hcut.fits 5 rfl (by decide), hnode, hmarks rfl⟩

end Zipper

end TreeCursor
