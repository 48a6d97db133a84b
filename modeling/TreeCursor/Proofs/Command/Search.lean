import TreeCursor.Proofs.Command.Stage
import TreeCursor.Proofs.Json.Equality
import TreeCursor.Proofs.Json.Extent
import TreeCursor.Proofs.Script.Routes
import TreeCursor.Proofs.Zipper.Editing
import TreeCursor.Proofs.Zipper.Search

/-!
# Searches from the command line

A search prints the script of the place that it finds.  Read again as a path, the line that it
prints leads to that place, for the places of a document that is read have indices that a script can
count.  So another run prints the node that was found.
-/

namespace TreeCursor

open TreeCursor.Tree

/-- What can be read fits into a memory with addresses of 64 bits. -/
structure World.Sized (world : World) : Prop where
  input : world.input.size < 2 ^ 64
  file : ∀ path bytes, world.file path = .ok bytes → bytes.size < 2 ^ 64

/-- Read as a path without the blanks around it, a line with a script is that script. -/
theorem Script.trim_line_forRoute (route : List ℕ) :
    String.ofList (Text.trim (forRoute route ++ "\n").toList) = forRoute route := by
  have hline : (forRoute route ++ "\n").toList = render (route.flatMap stepsTo) ++ ['\n'] := by
    rw [String.toList_append, forRoute, String.toList_ofList]
    rfl
  have hend : ∀ c ∈ ['\n'], Text.isBlank c = true := List.forall_mem_singleton.mpr rfl
  rw [hline, Text.trim_append_blanks (fun _ => not_isBlank_of_mem_render) hend]
  rfl

/-! ## Commands that do not fail -/

theorem Document.ofBytes_eq_ok_iff {content : Except FileError ByteArray} {document : Document} :
    ofBytes content = .ok document ↔ ∃ bytes, content = .ok bytes ∧ read bytes = .ok document := by
  unfold ofBytes
  cases content with
  | error e => simp
  | ok bytes =>
      cases hread : Document.read bytes with
      | ok document' => simp [hread]
      | error e => cases e <;> simp [hread]

namespace Command

variable {settings : Settings} {world : World} {input : String}

theorem silent_readDocument (world : World) (input : String) :
    (readDocument world input).Silent := by
  unfold readDocument
  split
  · exact Stage.silent_ofExcept _ _
  · refine Stage.silent_bind (Stage.silent_ofExcept _ _) fun document _ => ?_
    exact Stage.silent_bind (Stage.silent_report _) fun _ _ => Stage.silent_pure _

theorem silent_navigate (world : World) (input path : String) :
    (navigate world input path).Silent := by
  refine Stage.silent_bind (Stage.silent_ofExcept _ _) fun steps _ => ?_
  refine Stage.silent_bind (silent_readDocument world input) fun document _ => ?_
  refine Stage.silent_bind (Stage.silent_ofExcept _ _) fun z _ => ?_
  exact Stage.silent_bind (Stage.silent_report _) fun _ _ => Stage.silent_pure _

theorem yields_navigate {path : String} {steps : List Step} {document : Document}
    {z : Zipper Document} (hscript : Script.parse path = .ok steps)
    (hread : (readDocument world input).result = .ok document)
    (hrun : Script.run steps (.ofTree document) = .ok z) :
    (navigate world input path).Yields "" z := by
  have hdocument : (readDocument world input).Yields "" document :=
    ⟨silent_readDocument world input, hread⟩
  refine Stage.yields_bind (Stage.yields_ofExcept hscript) ?_
  refine Stage.yields_bind hdocument ?_
  refine Stage.yields_bind (Stage.yields_ofExcept hrun) ?_
  exact Stage.yields_bind (Stage.yields_report _) (Stage.yields_pure z)

theorem yields_get {path : String} {z : Zipper Document}
    (hnavigate : (navigate world input path).Yields "" z) :
    ((Command.get input path).run settings world).Yields (print settings.command z.focus).output
      0 := by
  unfold run
  exact Stage.yields_bind hnavigate (Stage.yields_bind_pure (Stage.yields_print _) 0)

section Find

variable (settings : Settings) {equals start : String} {dir : Direction} {needle : Document}
variable {z : Zipper Document} (hequals : Document.parse equals = .ok needle)
variable (hnavigate : (navigate world input start).Yields "" z)
include hequals hnavigate

theorem yields_find_of_some {w : Zipper Document} (hfind : z.find dir (· == needle) = some w) :
    ((Command.find input equals start dir).run settings world).Yields
      (Script.forRoute w.route ++ "\n") 0 := by
  unfold run
  refine Stage.yields_bind (Stage.yields_ofExcept hequals) (Stage.yields_bind hnavigate ?_)
  rw [hfind]
  exact Stage.yields_bind_pure (Stage.yields_print _) 0

theorem yields_find_of_none (hfind : z.find dir (· == needle) = none) :
    ((Command.find input equals start dir).run settings world).Yields "" 1 := by
  unfold run
  refine Stage.yields_bind (Stage.yields_ofExcept hequals) (Stage.yields_bind hnavigate ?_)
  rw [hfind]
  exact Stage.yields_bind_pure (Stage.yields_report _) 1

end Find

/-- A document that is read has no more nodes than its bytes. -/
theorem nodeCount_lt_of_readDocument (hworld : world.Sized) {document : Document}
    (hread : (readDocument world input).result = .ok document) :
    nodeCount document < 2 ^ 64 := by
  unfold readDocument at hread
  split at hread
  · rw [Stage.result_ofExcept_eq_ok_iff] at hread
    obtain ⟨bytes, hbytes, hread⟩ := Document.ofBytes_eq_ok_iff.mp hread
    cases hbytes
    exact (Document.nodeCount_le_of_read hread).trans_lt hworld.input
  · obtain ⟨document', hfile, hloaded⟩ := Stage.result_bind_eq_ok_iff.mp hread
    obtain rfl : document' = document := Except.ok.inj hloaded
    rw [Stage.result_ofExcept_eq_ok_iff] at hfile
    obtain ⟨bytes, hbytes, hread⟩ := Document.ofBytes_eq_ok_iff.mp hfile
    exact (Document.nodeCount_le_of_read hread).trans_lt (hworld.file input bytes hbytes)

/-- By the script of a place, the node there is printed. -/
theorem yields_get_forRoute (settings : Settings) {document node : Document} {place : List ℕ}
    (hread : (readDocument world input).result = .ok document)
    (hcount : nodeCount document < 2 ^ 64) (hplace : nodeAt document place = some node) :
    ((Command.get input (Script.forRoute place)).run settings world).Yields
      (print settings.command node).output 0 := by
  have hindices : ∀ index ∈ place, index < 2 ^ 64 := fun index hindex =>
    (index_lt_of_nodeAt hplace index hindex).trans hcount
  obtain ⟨w, hrun, -, -, rfl⟩ := Script.exists_run_route hplace
  exact yields_get (yields_navigate (Script.parse_forRoute hindices) hread hrun)

end Command

/-- A search for a document ends at the nearest node that has its canonical form. -/
theorem Zipper.firstMatch_of_find_equal {z w : Zipper Document} (hsound : Sound z)
    {dir : Direction} {needle : Document} (hfind : z.find dir (· == needle) = some w) :
    FirstMatch dir (fun node => node.canonical = needle.canonical) z.root z.route w.route
      w.focus := by
  have hmatch := find_firstMatch hsound hfind
  simpa only [Document.beq_iff_canonical_eq] using hmatch

namespace Invocation

theorem run_of_yields {invocation : Invocation} {world : World} {settings : Settings}
    {filter : Filter} (hstart : invocation.start world = .ok (settings, filter)) {text : String}
    {code : ℕ} (hyields : (invocation.command.run settings world).Yields text code) :
    (invocation.run world).exitCode = code ∧ (invocation.run world).output = text := by
  rw [run, hstart]
  dsimp only
  rw [hyields.result, hyields.output]
  exact ⟨rfl, rfl⟩

section Find

variable {search : Invocation} {world : World} {settings : Settings} {filter : Filter}
variable {input equals start : String} {dir : Direction} {needle document : Document}
variable {steps : List Step} {z : Zipper Document}

/-- A search succeeds if from its start on there is a node equal to what it looks for, and else it
fails without output.  If it succeeds, then by the line that it prints, whatever run prints the node
at the nearest place of those, in the same document. -/
theorem find_then_get (hworld : world.Sized) (hstart : search.start world = .ok (settings, filter))
    (hcommand : search.command = .find input equals start dir)
    (hequals : Document.parse equals = .ok needle) (hscript : Script.parse start = .ok steps)
    (hread : (Command.readDocument world input).result = .ok document)
    (hrun : Script.run steps (.ofTree document) = .ok z) :
    ((search.run world).exitCode = 0 ↔
        ∃ place node, nodeAt document place = some node ∧ dir.Meets z.route place ∧
          node.canonical = needle.canonical) ∧
      ((search.run world).exitCode ≠ 0 →
        (search.run world).exitCode = 1 ∧ (search.run world).output = "") ∧
      ((search.run world).exitCode = 0 →
        ∃ place node,
          Zipper.FirstMatch dir (fun node => node.canonical = needle.canonical) document z.route
            place node ∧
          ∀ (lookup : Invocation) (settings' : Settings) (filter' : Filter),
            lookup.start world = .ok (settings', filter') →
            lookup.command =
              .get input (String.ofList (Text.trim (search.run world).output.toList)) →
            (lookup.run world).exitCode = 0 ∧
              (lookup.run world).output = (Command.print settings'.command node).output) := by
  have hwalked : Zipper.Walked document z := Script.walked_run hrun
  have hroot : z.root = document := Zipper.root_of_walked hwalked
  have hsound : Zipper.Sound z := Zipper.sound_of_reachable hwalked.reachable
  have hnavigate := Command.yields_navigate hscript hread hrun
  have hfound : (∃ w, z.find dir (· == needle) = some w) ↔
      ∃ place node, nodeAt document place = some node ∧ dir.Meets z.route place ∧
        node.canonical = needle.canonical := by
    rw [Zipper.exists_find_iff hsound, hroot]
    simp only [Document.beq_iff_canonical_eq]
  cases hfind : z.find dir (· == needle) with
  | none =>
      have hyields := Command.yields_find_of_none settings hequals hnavigate hfind
      rw [← hcommand] at hyields
      obtain ⟨hexit, houtput⟩ := run_of_yields hstart hyields
      rw [hfind] at hfound
      refine ⟨?_, fun _ => ⟨hexit, houtput⟩, fun hzero => ?_⟩
      · rw [hexit, ← hfound]
        simp
      · rw [hexit] at hzero
        cases hzero
  | some w =>
      have hyields := Command.yields_find_of_some settings hequals hnavigate hfind
      rw [← hcommand] at hyields
      obtain ⟨hexit, houtput⟩ := run_of_yields hstart hyields
      rw [hfind] at hfound
      have hmatch := Zipper.firstMatch_of_find_equal hsound hfind
      rw [hroot] at hmatch
      refine ⟨iff_of_true hexit (hfound.mp ⟨w, rfl⟩), fun hnonzero => absurd hexit hnonzero,
        fun _ => ⟨w.route, w.focus, hmatch, ?_⟩⟩
      intro lookup settings' filter' hlookup hget
      -- what is passed on is a text, which has to be read as the route that was found
      have hline : lookup.command = .get input (Script.forRoute w.route) := by
        rw [hget, houtput]
        exact congrArg (Command.get input) (Script.trim_line_forRoute w.route)
      have hprinted := Command.yields_get_forRoute settings' hread
        (Command.nodeCount_lt_of_readDocument hworld hread) hmatch.nodeAt_place
      rw [← hline] at hprinted
      exact run_of_yields hlookup hprinted

end Find

/-- From the last item a search backward finds an object of the same members, and the line that it
prints leads another run to it. -/
theorem find_then_get_of_reordered_members :
    let search : Invocation :=
      { command := .find "-" "\x7b\"b\": true, \"a\": null\x7d" "d,r*2" .prev }
    let lookup : Invocation := { command := .get "-" "down,right,down,down,right" }
    let text : String := "[null, \x7b\"k\": \x7b\"a\": null, \"b\": true\x7d\x7d, null]"
    let world : World :=
      { input := text.toUTF8, file := fun _ => .error .missing, configVariable := none,
        logVariable := none, logFault := fun _ => none }
    let value : Document := .object ⟨[("a", .null), ("b", .bool true)], by decide⟩
    let document : Document := .array [.null, .object ⟨[("k", value)], by decide⟩, .null]
    (search.run world).exitCode = 0 ∧
      (search.run world).output = "down,right,down,down,right\n" ∧
      (lookup.run world).output = "\x7b\n  \"a\": null,\n  \"b\": true\n\x7d\n" ∧
      ∃ place node,
        Zipper.FirstMatch .prev (fun node => node.canonical = value.canonical) document [2] place
          node ∧
        (lookup.run world).exitCode = 0 ∧
        (lookup.run world).output = (Command.print {} node).output := by
  intro search lookup text world value document
  have hequals : Document.parse "\x7b\"b\": true, \"a\": null\x7d" =
      .ok (.object ⟨[("b", .bool true), ("a", .null)], by decide⟩) := rfl
  have hscript : Script.parse "d,r*2" = .ok [⟨.down, 1⟩, ⟨.right, 2⟩] := rfl
  have hparse : Document.parse text = .ok document := by
    simp only [text, document, value]
    rfl
  have hread : (Command.readDocument world "-").result = .ok document :=
    Stage.result_ofExcept_eq_ok_iff.mpr (Document.ofBytes_eq_ok_iff.mpr
      ⟨world.input, rfl, Document.read_eq_ok_iff.mpr ⟨text, rfl, hparse⟩⟩)
  have hrun : Script.run [⟨.down, 1⟩, ⟨.right, 2⟩] (.ofTree document) =
      .ok ⟨.null, [⟨document, .ofList [.object ⟨[("k", value)], by decide⟩, .null], .ofList []⟩]⟩ :=
    rfl
  have hworld : world.Sized := ⟨by decide +kernel, fun _ _ hfile => by cases hfile⟩
  have hstart (invocation : Invocation) (hdefault : invocation = search ∨ invocation = lookup) :
      invocation.start world = .ok ({}, ⟨[{ threshold := some .warn }]⟩) := by
    rcases hdefault with rfl | rfl <;> decide +kernel
  have hexit : (search.run world).exitCode = 0 := by decide +kernel
  have houtput : (search.run world).output = "down,right,down,down,right\n" := by decide +kernel
  obtain ⟨-, -, hfound⟩ :=
    find_then_get hworld (hstart search (.inl rfl)) rfl hequals hscript hread hrun
  obtain ⟨place, node, hmatch, hlookup⟩ := hfound hexit
  refine ⟨hexit, houtput, by decide +kernel, place, node, hmatch, ?_⟩
  exact hlookup lookup _ _ (hstart lookup (.inr rfl)) (by rw [houtput]; rfl)

end Invocation

end TreeCursor
