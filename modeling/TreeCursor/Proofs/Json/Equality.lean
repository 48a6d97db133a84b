import Mathlib.Data.List.Sort
import Mathlib.Data.String.Basic
import TreeCursor.Proofs.Json.Lawful

/-!
# Equality of documents

Every value has a canonical form, in which the members of an object are sorted by their keys and
zero has no sign.  Values without repeated keys are equal up to the order of members exactly when
their canonical forms are the same.  Nodes with the same canonical form are entries of the same key,
so that a document rebuilt over equal nodes is an equal document, whether an object stays one or
not.
-/

namespace TreeCursor

/-! ## Canonical forms -/

/-- Zero without its sign, and any other double as it is. -/
def Double.canonical (d : Double) : Double :=
  if d.isZero then .zero false else d

def Number.canonical : Number → Number
  | .int value h => .int value h
  | .double value => .double value.canonical

namespace Json

/-- The members in the order of their keys. -/
def sortMembers (members : List (String × Json)) : List (String × Json) :=
  members.insertionSort fun member other => member.1 ≤ other.1

mutual

/-- The value with the members of every object sorted and zero without its sign. -/
def canonical : Json → Json
  | .null => .null
  | .bool value => .bool value
  | .number value => .number value.canonical
  | .string value => .string value
  | .array items => .array (canonicalItems items)
  | .object members => .object (sortMembers (canonicalMembers members))

def canonicalItems : List Json → List Json
  | [] => []
  | item :: items => item.canonical :: canonicalItems items

def canonicalMembers : List (String × Json) → List (String × Json)
  | [] => []
  | (key, value) :: members => (key, value.canonical) :: canonicalMembers members

end

theorem canonicalItems_eq_map (items : List Json) : canonicalItems items = items.map canonical := by
  induction items with
  | nil => rfl
  | cons item items ih => rw [canonicalItems, ih, List.map_cons]

theorem canonicalMembers_eq_map (members : List (String × Json)) :
    canonicalMembers members = members.map fun member => (member.1, member.2.canonical) := by
  induction members with
  | nil => rfl
  | cons member members ih => rw [canonicalMembers, ih, List.map_cons]

theorem map_fst_canonicalMembers (members : List (String × Json)) :
    (canonicalMembers members).map Prod.fst = members.map Prod.fst := by
  rw [canonicalMembers_eq_map, List.map_map]
  rfl

end Json

/-! ## Equality is that of canonical forms -/

theorem Double.beq_iff_canonical_eq (a b : Double) :
    (a == b) = true ↔ a.canonical = b.canonical := by
  obtain ⟨negative, magnitude, hfinite⟩ := a
  obtain ⟨negative', magnitude', hfinite'⟩ := b
  change (magnitude == magnitude' && (negative == negative' || magnitude == 0)) = true ↔ _
  by_cases hzero : magnitude = 0
  · by_cases hzero' : magnitude' = 0
    · simp [canonical, isZero, hzero, hzero']
    · simp [canonical, isZero, zero, hzero, hzero', Ne.symm hzero']
  · by_cases hzero' : magnitude' = 0
    · simp [canonical, isZero, zero, hzero, hzero']
    · simp [canonical, isZero, hzero, hzero', and_comm]

theorem Number.beq_iff_canonical_eq (a b : Number) :
    (a == b) = true ↔ a.canonical = b.canonical := by
  cases a with
  | int value hrange =>
      cases b with
      | int value' hrange' =>
          change (value == value') = true ↔ _
          simp [canonical]
      | double value' => exact iff_of_false Bool.false_ne_true Number.noConfusion
  | double value =>
      cases b with
      | int value' hrange' => exact iff_of_false Bool.false_ne_true Number.noConfusion
      | double value' =>
          change (value == value') = true ↔ _
          simp [canonical, Double.beq_iff_canonical_eq]

namespace Json

/-- Where no key comes twice, a key leads to the one member that carries it. -/
theorem lookup_eq_some_iff_mem {members : List (String × Json)}
    (hnodup : (members.map Prod.fst).Nodup) {key : String} {value : Json} :
    members.lookup key = some value ↔ (key, value) ∈ members := by
  induction members with
  | nil => simp
  | cons member members ih =>
      obtain ⟨name, other⟩ := member
      obtain ⟨hname, hnodup⟩ := List.nodup_cons.mp hnodup
      rw [List.lookup_cons, List.mem_cons, Prod.mk.injEq]
      by_cases hkey : key = name
      · subst hkey
        have habsent : (key, value) ∉ members := by
          intro hmem
          exact hname (List.mem_map.mpr ⟨(key, value), hmem, rfl⟩)
        simp [habsent, eq_comm]
      · rw [beq_false_of_ne hkey, ih hnodup]
        simp [hkey]

/-- Members without repeated keys have one sorted order. -/
theorem sortMembers_eq_iff_perm {members others : List (String × Json)}
    (hnodup : (members.map Prod.fst).Nodup) :
    sortMembers members = sortMembers others ↔ members.Perm others := by
  have hmembers : (sortMembers members).Perm members := List.perm_insertionSort _ _
  have hothers : (sortMembers others).Perm others := List.perm_insertionSort _ _
  constructor
  · intro hsorted
    exact hmembers.symm.trans (hsorted ▸ hothers)
  · intro hperm
    have htotal : ∀ entries, (sortMembers entries).Pairwise fun member other =>
        member.1 ≤ other.1 := by
      intro entries
      have : Std.Total fun member other : String × Json => member.1 ≤ other.1 :=
        ⟨fun member other => le_total member.1 other.1⟩
      have : IsTrans (String × Json) fun member other => member.1 ≤ other.1 :=
        ⟨fun _ _ _ => le_trans⟩
      exact List.pairwise_insertionSort _ entries
    -- the order is only one of keys, so that different members must not share one
    apply List.Perm.eq_of_pairwise _ (htotal members) (htotal others)
      (hmembers.trans (hperm.trans hothers.symm))
    intro member other hmember hother hle hge
    have hmember' : member ∈ members := hmembers.mem_iff.mp hmember
    have hother' : other ∈ members := hperm.mem_iff.mpr (hothers.mem_iff.mp hother)
    exact List.inj_on_of_nodup_map hnodup hmember' hother' (le_antisymm hle hge)

/-- As many members with different keys as others, which have them all, are these. -/
theorem perm_iff_length_eq_and_subset {members others : List (String × Json)}
    (hnodup : (members.map Prod.fst).Nodup) :
    members.Perm others ↔ members.length = others.length ∧ members ⊆ others := by
  constructor
  · intro hperm
    exact ⟨hperm.length_eq, hperm.subset⟩
  · rintro ⟨hlength, hsubset⟩
    exact (List.subperm_of_subset hnodup.of_map hsubset).perm_of_length_le hlength.ge

mutual

/-- Values are equal up to the order of members when their canonical forms are the same. -/
theorem equal_iff_canonical_eq : (a b : Json) → a.WellFormed → b.WellFormed →
    (equal a b = true ↔ a.canonical = b.canonical)
  | .null, b, _, _ => by
      cases b <;> simp [equal, canonical]
  | .bool value, b, _, _ => by
      cases b <;> simp [equal, canonical]
  | .number value, b, _, _ => by
      cases b <;> simp [equal, canonical, Number.beq_iff_canonical_eq]
  | .string value, b, _, _ => by
      cases b <;> simp [equal, canonical]
  | .array items, b, .array hitems, hb => by
      cases hb with
      | array hothers =>
          rw [equal, canonical, canonical, Json.array.injEq]
          exact equalItems_iff_canonicalItems_eq items _ hitems hothers
      | _ => simp [equal, canonical]
  | .object members, b, .object hnodup hmembers, hb => by
      cases hb with
      | @object others hnodup' hothers =>
          have hkeys : ((canonicalMembers members).map Prod.fst).Nodup := by
            rwa [map_fst_canonicalMembers]
          rw [equal, Bool.and_eq_true, beq_iff_eq, canonical, canonical, Json.object.injEq,
            sortMembers_eq_iff_perm hkeys, perm_iff_length_eq_and_subset hkeys,
            equalMembers_iff_subset members hmembers hnodup' hothers, canonicalMembers_eq_map,
            canonicalMembers_eq_map, List.length_map, List.length_map]
      | _ => simp [equal, canonical]

theorem equalItems_iff_canonicalItems_eq : (items others : List Json) →
    (∀ item ∈ items, item.WellFormed) → (∀ item ∈ others, item.WellFormed) →
    (equalItems items others = true ↔ canonicalItems items = canonicalItems others)
  | [], others, _, _ => by
      cases others <;> simp [equalItems, canonicalItems]
  | item :: items, [], _, _ => by
      simp [equalItems, canonicalItems]
  | item :: items, other :: others, hitems, hothers => by
      obtain ⟨hitem, hitems⟩ := List.forall_mem_cons.mp hitems
      obtain ⟨hother, hothers⟩ := List.forall_mem_cons.mp hothers
      rw [equalItems, Bool.and_eq_true, canonicalItems, canonicalItems, List.cons.injEq,
        equal_iff_canonical_eq item other hitem hother,
        equalItems_iff_canonicalItems_eq items others hitems hothers]

theorem equalMembers_iff_subset : (members : List (String × Json)) →
    (∀ member ∈ members, member.2.WellFormed) → {others : List (String × Json)} →
    (others.map Prod.fst).Nodup → (∀ member ∈ others, member.2.WellFormed) →
    (equalMembers members others = true ↔ canonicalMembers members ⊆ canonicalMembers others)
  | [], _, others, _, _ => by
      simp [equalMembers, canonicalMembers]
  | (key, value) :: members, hmembers, others, hnodup, hothers => by
      obtain ⟨hvalue, hmembers⟩ := List.forall_mem_cons.mp hmembers
      rw [equalMembers, Bool.and_eq_true, canonicalMembers, List.cons_subset,
        equalMembers_iff_subset members hmembers hnodup hothers]
      refine and_congr_left fun _ => ?_
      rw [canonicalMembers_eq_map, List.mem_map]
      constructor
      · intro hequal
        cases hlookup : others.lookup key with
        | none => simp [hlookup] at hequal
        | some other =>
            rw [hlookup] at hequal
            have hmem := (lookup_eq_some_iff_mem hnodup).mp hlookup
            refine ⟨(key, other), hmem, ?_⟩
            rw [(equal_iff_canonical_eq value other hvalue (hothers _ hmem)).mp hequal]
      · rintro ⟨⟨name, other⟩, hmem, heq⟩
        obtain ⟨rfl, hcanonical⟩ := Prod.mk.inj heq
        rw [(lookup_eq_some_iff_mem hnodup).mpr hmem]
        exact (equal_iff_canonical_eq value other hvalue (hothers _ hmem)).mpr hcanonical.symm

end

end Json

/-! ## Equal documents -/

namespace Document

/-- The canonical form of a document. -/
def canonical (document : Document) : Json :=
  document.value.canonical

theorem beq_iff_canonical_eq (a b : Document) : (a == b) = true ↔ a.canonical = b.canonical :=
  Json.equal_iff_canonical_eq a.value b.value a.wellFormed b.wellFormed

theorem canonical_array (items : List Document) :
    (array items).canonical = .array (items.map canonical) := by
  simp [canonical, array, Json.canonical, Json.canonicalItems_eq_map, Function.comp_def]

/-- The members of an object by the canonical forms of their values. -/
def canonicalMembers (entries : List (String × Document)) : List (String × Json) :=
  entries.map fun (key, value) => (key, value.canonical)

theorem canonical_object (members : Members) :
    (object members).canonical = .object (Json.sortMembers (canonicalMembers members.entries)) := by
  simp [canonical, object, Json.canonical, Json.canonicalMembers_eq_map, canonicalMembers,
    Function.comp_def]

theorem isBranch_eq_of_canonical_eq {a b : Document} (hequal : a.canonical = b.canonical) :
    a.isBranch = b.isBranch := by
  obtain ⟨value, hvalue⟩ := a
  obtain ⟨value', hvalue'⟩ := b
  cases value <;> cases value' <;> first | rfl | cases hequal

theorem eq_string_of_canonical_eq {document : Document} {text : String}
    (hform : document.canonical = .string text) : document = string text := by
  obtain ⟨value, hvalue⟩ := document
  apply ext_value
  cases value <;> cases hform
  rfl

/-- What has the canonical form of an entry is an entry of the same key. -/
theorem exists_entry_of_canonical_eq {document : Document} {key : String} {form : Json}
    (hform : document.canonical = .array [.string key, form]) :
    ∃ value, document = entry key value ∧ value.canonical = form := by
  have hbranch : document.isBranch = true := by
    obtain ⟨value, hvalue⟩ := document
    cases value <;> first | rfl | cases hform
  obtain ⟨items, rfl⟩ | ⟨members, rfl⟩ := exists_of_isBranch hbranch
  · rw [canonical_array, Json.array.injEq, List.map_eq_cons_iff] at hform
    obtain ⟨first, rest, rfl, hfirst, hrest⟩ := hform
    rw [List.map_eq_singleton_iff] at hrest
    obtain ⟨value, rfl, hvalue⟩ := hrest
    rw [eq_string_of_canonical_eq hfirst]
    exact ⟨value, rfl, hvalue⟩
  · rw [canonical_object] at hform
    cases hform

theorem canonical_entry (key : String) (value : Document) :
    (entry key value).canonical = .array [.string key, value.canonical] :=
  canonical_array [string key, value]

/-- Nodes that are equal to entries are entries of the same keys in the same order. -/
theorem exists_entries_of_map_canonical_eq {entries : List (String × Document)}
    {nodes : List Document}
    (hnodes :
      nodes.map canonical = (entries.map fun (key, value) => entry key value).map canonical) :
    ∃ others : List (String × Document),
      nodes = others.map (fun (key, value) => entry key value) ∧
        canonicalMembers others = canonicalMembers entries := by
  induction entries generalizing nodes with
  | nil => exact ⟨[], List.map_eq_nil_iff.mp hnodes, rfl⟩
  | cons member entries ih =>
      obtain ⟨key, value⟩ := member
      rw [List.map_cons, List.map_cons, List.map_eq_cons_iff, canonical_entry] at hnodes
      obtain ⟨node, rest, rfl, hnode, hrest⟩ := hnodes
      obtain ⟨other, rfl, hother⟩ := exists_entry_of_canonical_eq hnode
      obtain ⟨others, rfl, hothers⟩ := ih hrest
      exact ⟨(key, other) :: others, rfl,
        congrArg₂ (fun form forms => (key, form) :: forms) hother hothers⟩

theorem map_fst_canonicalMembers (entries : List (String × Document)) :
    (canonicalMembers entries).map Prod.fst = entries.map Prod.fst := by
  rw [canonicalMembers, List.map_map]
  rfl

theorem exists_asMembers?_of_map_canonical_eq {nodes nodes' : List Document} {members : Members}
    (hnodes : nodes.map canonical = nodes'.map canonical)
    (hmembers : asMembers? nodes = some members) :
    ∃ members' : Members, asMembers? nodes' = some members' ∧
      canonicalMembers members'.entries = canonicalMembers members.entries := by
  rw [asMembers?_eq_some_iff.mp hmembers] at hnodes
  obtain ⟨others, rfl, hothers⟩ := exists_entries_of_map_canonical_eq hnodes.symm
  have hnodup : (others.map Prod.fst).Nodup := by
    rw [← map_fst_canonicalMembers, hothers, map_fst_canonicalMembers]
    exact members.nodup
  exact ⟨⟨others, hnodup⟩, asMembers?_eq_some_iff.mpr rfl, hothers⟩

/-- Of two equal lists of nodes both are the members of an object or none is. -/
theorem canonical_rebuild_object (members others : Members) {nodes nodes' : List Document}
    (hnodes : nodes.map canonical = nodes'.map canonical) :
    ((object members).rebuild nodes).canonical = ((object others).rebuild nodes').canonical := by
  cases hread : asMembers? nodes with
  | some entries =>
      obtain ⟨entries', hread', hentries⟩ := exists_asMembers?_of_map_canonical_eq hnodes hread
      rw [rebuild_object, rebuild_object, hread, hread']
      exact (canonical_object entries).trans (hentries ▸ (canonical_object entries').symm)
  | none =>
      have hread' : asMembers? nodes' = none := by
        by_contra hsome
        obtain ⟨entries, hentries⟩ := Option.ne_none_iff_exists'.mp hsome
        obtain ⟨entries', hentries', -⟩ :=
          exists_asMembers?_of_map_canonical_eq hnodes.symm hentries
        cases hread.symm.trans hentries'
      rw [rebuild_object_of_asMembers?_eq_none _ hread,
        rebuild_object_of_asMembers?_eq_none _ hread', canonical_array, canonical_array, hnodes]

/-- Equal documents over equal nodes are rebuilt to equal documents. -/
theorem canonical_rebuild {a b : Document} {nodes nodes' : List Document}
    (hequal : a.canonical = b.canonical) (hnodes : nodes.map canonical = nodes'.map canonical) :
    (a.rebuild nodes).canonical = (b.rebuild nodes').canonical := by
  cases hbranch : a.isBranch with
  | false =>
      have hbranch' : b.isBranch = false := (isBranch_eq_of_canonical_eq hequal).symm.trans hbranch
      rw [rebuild_leaf hbranch, rebuild_leaf hbranch', canonical_array, canonical_array,
        List.map_cons, List.map_cons, hequal, hnodes]
  | true =>
      have hbranch' : b.isBranch = true := (isBranch_eq_of_canonical_eq hequal).symm.trans hbranch
      obtain ⟨items, rfl⟩ | ⟨members, rfl⟩ := exists_of_isBranch hbranch
      · obtain ⟨items', rfl⟩ | ⟨members', rfl⟩ := exists_of_isBranch hbranch'
        · rw [rebuild_array, rebuild_array, canonical_array, canonical_array, hnodes]
        · rw [canonical_array, canonical_object] at hequal
          cases hequal
      · obtain ⟨items', rfl⟩ | ⟨members', rfl⟩ := exists_of_isBranch hbranch'
        · rw [canonical_array, canonical_object] at hequal
          cases hequal
        · exact canonical_rebuild_object members members' hnodes

end Document

end TreeCursor
