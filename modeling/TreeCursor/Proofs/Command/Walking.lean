import TreeCursor.Proofs.Command.Logging
import TreeCursor.Proofs.Command.Search

/-!
# Walks from the command line

A walk prints the outline of a document, a line for every node with its depth, up to the limit that
the settings give.  The limit is on the nodes of the outline and not on the lines, of which there are
fewer if only leaves are asked for, and a warning says that the outline goes on beyond it.
-/

namespace TreeCursor

open TreeCursor.Tree

namespace Command

/-- Nothing is reported of a document but that it is loaded. -/
theorem reports_readDocument (world : World) (input : String) :
    (readDocument world input).Reports fun event => event = .loaded input := by
  unfold readDocument
  split
  · exact Stage.reports_ofExcept _ _
  · refine Stage.reports_bind (Stage.reports_ofExcept _ _) fun document => ?_
    exact Stage.reports_bind (Stage.reports_report rfl) fun _ => Stage.reports_pure _

section Loop

/-- A walk that has not come beyond its limit, nor to it, has room for another position. -/
theorem succ_le_of_ne_limit {limit : Option ℕ} {seen : ℕ} (hseen : ∀ count ∈ limit, seen ≤ count)
    (hlimit : limit ≠ some seen) : ∀ count ∈ limit, seen + 1 ≤ count := by
  intro count hcount
  refine (hseen count hcount).lt_of_ne ?_
  rintro rfl
  exact hlimit hcount

variable (leavesOnly : Bool)

/-- The lines of a walk for some positions. -/
def walkLines (positions : List (Zipper Document)) : String :=
  String.join ((positions.filter fun z => !(leavesOnly && isBranch z.focus)).map fun z =>
    toString z.depth ++ "\t" ++ z.focus.compact ++ "\n")

theorem walkLines_cons (z : Zipper Document) (positions : List (Zipper Document)) :
    walkLines leavesOnly (z :: positions) =
      walkLines leavesOnly [z] ++ walkLines leavesOnly positions := by
  rw [walkLines, ← List.singleton_append, List.filter_append, List.map_append, String.join_append]
  rfl

theorem walkLine_eq (z : Zipper Document) :
    walkLine leavesOnly z = .print (walkLines leavesOnly [z]) := by
  rw [walkLine, walkLines, List.filter_singleton]
  cases leavesOnly && isBranch z.focus with
  | true => rfl
  | false =>
      have hlines : String.join [toString z.depth ++ "\t" ++ z.focus.compact ++ "\n"] =
          toString z.depth ++ "\t" ++ z.focus.compact ++ "\n" := by
        rw [String.join_cons, String.join_nil, String.append_empty]
      exact congrArg Stage.print hlines.symm

/-- At its limit a walk stops. -/
theorem walkFrom_at_limit (seen : ℕ) (z : Zipper Document) (positions : List (Zipper Document)) :
    walkFrom leavesOnly (some seen) seen (z :: positions) = .report (.stopped seen) := by
  rw [walkFrom, if_pos rfl]

/-- Short of its limit a walk prints the line of the next position and goes on. -/
theorem walkFrom_of_ne_limit {limit : Option ℕ} {seen : ℕ} (hlimit : limit ≠ some seen)
    (z : Zipper Document) (positions : List (Zipper Document)) :
    walkFrom leavesOnly limit seen (z :: positions) =
      ⟨walkLines leavesOnly [z] ++ (walkFrom leavesOnly limit (seen + 1) positions).output,
        (walkFrom leavesOnly limit (seen + 1) positions).events,
        (walkFrom leavesOnly limit (seen + 1) positions).result⟩ := by
  rw [walkFrom, if_neg hlimit, walkLine_eq, Stage.bind_of_ok rfl]
  rfl

variable {limit : Option ℕ} {seen : ℕ} (hseen : ∀ count ∈ limit, seen ≤ count)
variable (positions : List (Zipper Document))
include hseen

/-- A walk succeeds and prints the lines of the positions up to its limit. -/
theorem yields_walkFrom :
    (walkFrom leavesOnly limit seen positions).Yields
      (walkLines leavesOnly (positions.take
        (limit.elim positions.length fun count => min (count - seen) positions.length))) () := by
  induction positions generalizing seen with
  | nil =>
      rw [List.take_nil]
      exact Stage.yields_pure ()
  | cons z positions ih =>
      by_cases hlimit : limit = some seen
      · rw [hlimit, walkFrom_at_limit, Option.elim_some, Nat.sub_self, Nat.zero_min, List.take_zero]
        exact Stage.yields_report _
      · have hnext := succ_le_of_ne_limit hseen hlimit
        have hcount : (limit.elim (positions.length + 1)
              fun count => min (count - seen) (positions.length + 1)) =
            (limit.elim positions.length
              fun count => min (count - (seen + 1)) positions.length) + 1 := by
          cases limit with
          | none => rfl
          | some count =>
              have hlater : seen + 1 ≤ count := hnext count rfl
              simp only [Option.elim_some]
              omega
        rw [walkFrom_of_ne_limit leavesOnly hlimit, (ih hnext).output, (ih hnext).result,
          ← walkLines_cons, ← List.take_succ_cons, ← hcount]
        exact ⟨rfl, rfl⟩

/-- A walk warns if there are positions beyond its limit, and reports nothing else. -/
theorem mem_events_walkFrom {event : Event} :
    event ∈ (walkFrom leavesOnly limit seen positions).events ↔
      ∃ count, limit = some count ∧ count < seen + positions.length ∧ event = .stopped count := by
  induction positions generalizing seen with
  | nil =>
      refine iff_of_false List.not_mem_nil ?_
      rintro ⟨count, hcount, hbeyond, -⟩
      exact absurd (hseen count hcount) hbeyond.not_ge
  | cons z positions ih =>
      by_cases hlimit : limit = some seen
      · rw [hlimit, walkFrom_at_limit]
        simp [Stage.report]
      · rw [walkFrom_of_ne_limit leavesOnly hlimit, ih (succ_le_of_ne_limit hseen hlimit),
          List.length_cons, Nat.add_right_comm, Nat.add_assoc]

end Loop

/-- The lines of the first positions are those of the start of the outline. -/
theorem walkLines_take_positions (leavesOnly : Bool) (document : Document) (count : ℕ) :
    walkLines leavesOnly ((Zipper.ofTree document).positions.take count) =
      String.join ((((outline 0 document).take count).filter fun (_, node) =>
        !(leavesOnly && isBranch node)).map fun (depth, node) =>
          toString depth ++ "\t" ++ node.compact ++ "\n") := by
  rw [← Zipper.map_place_positions_ofTree, ← List.map_take, List.filter_map, List.map_map]
  rfl

end Command

namespace Invocation

variable {invocation : Invocation} {world : World} {settings : Settings} {filter : Filter}
variable {input : String} {leavesOnly : Bool} {document : Document}

/-- A walk through a document succeeds and prints its nodes in pre-order, each on a line with its
depth, or else only the leaves among them.  All nodes count for the limit, printed or not, and if
the document has more of them than that, this and nothing else makes the walk warn that it stops. -/
theorem run_walk (hstart : invocation.start world = .ok (settings, filter))
    (hcommand : invocation.command = .walk input leavesOnly)
    (hread : (Command.readDocument world input).result = .ok document) :
    (invocation.run world).exitCode = 0 ∧
      (invocation.run world).output =
        String.join ((((outline 0 document).take
          (settings.command.maxSteps.elim (nodeCount document) (min · (nodeCount document)))).filter
            fun (_, node) => !(leavesOnly && isBranch node)).map
              fun (depth, node) => toString depth ++ "\t" ++ node.compact ++ "\n") ∧
      (outline 0 document).length = nodeCount document ∧
      ∀ event, event ∈ (invocation.run world).events ∧
          event.message = "walk stopped at step limit" ↔
        ∃ limit, settings.command.maxSteps = some limit ∧ limit < nodeCount document ∧
          event = .stopped limit := by
  have hlength : (Zipper.ofTree document).positions.length = nodeCount document := by
    rw [← length_outline 0, ← Zipper.map_place_positions_ofTree, List.length_map]
  let walked : Stage Unit :=
    Command.walkFrom leavesOnly settings.command.maxSteps 0 (Zipper.ofTree document).positions
  have hlimit : ∀ count ∈ settings.command.maxSteps, 0 ≤ count := fun count _ => count.zero_le
  have hwalked := Command.yields_walkFrom leavesOnly hlimit (Zipper.ofTree document).positions
  rw [hlength, Command.walkLines_take_positions] at hwalked
  have hdocument : (Command.readDocument world input).Yields "" document :=
    ⟨Command.silent_readDocument world input, hread⟩
  have hyields : ((Command.walk input leavesOnly).run settings world).Yields _ 0 :=
    Stage.yields_bind hdocument (Stage.yields_bind_pure hwalked 0)
  have hevents : (invocation.command.run settings world).events =
      (Command.readDocument world input).events ++ walked.events := by
    rw [hcommand, Command.run, Stage.bind_of_ok hread, Stage.bind_of_ok hwalked.result]
    exact congrArg _ (List.append_nil _)
  rw [← hcommand] at hyields
  obtain ⟨hexit, houtput⟩ := run_of_yields hstart hyields
  refine ⟨hexit, houtput, length_outline 0 document, fun event => ?_⟩
  rw [(events_of_start hstart).2.1, hevents, List.mem_cons, List.mem_append,
    Command.mem_events_walkFrom leavesOnly hlimit, Nat.zero_add, hlength]
  constructor
  · rintro ⟨rfl | hloaded | hstopped, hmessage⟩
    · exact absurd hmessage (by decide : "Logging initialized" ≠ "walk stopped at step limit")
    · rw [Command.reports_readDocument world input event hloaded] at hmessage
      exact absurd hmessage (by decide : "loaded json document" ≠ "walk stopped at step limit")
    · exact hstopped
  · intro hstopped
    obtain ⟨limit, -, -, rfl⟩ := id hstopped
    exact ⟨.inr (.inr hstopped), rfl⟩

/-- The first three of six nodes are an object, its member and the key of that, which is a leaf. -/
theorem run_walk_to_key :
    let walk : Invocation := { config := some "tz.toml", command := .walk "-" true }
    let text : String := "\x7b\"a\": [1, true]\x7d"
    let world : World :=
      { input := text.toUTF8, file := fun _ => .ok "[cli]\nmax_steps = 3\n".toUTF8,
        configVariable := none, logVariable := none, logFault := fun _ => none }
    let items : Document := .array [.number (.int 1 (by decide)), .bool true]
    let document : Document := .object ⟨[("a", items)], by decide⟩
    (walk.run world).exitCode = 0 ∧ (walk.run world).output = "2\t\"a\"\n" ∧
      (walk.run world).output =
        String.join ((((outline 0 document).take 3).filter
          fun (_, node) => !(true && isBranch node)).map
            fun (depth, node) => toString depth ++ "\t" ++ node.compact ++ "\n") ∧
      nodeCount document = 6 ∧ Event.stopped 3 ∈ (walk.run world).events := by
  intro walk text world items document
  have hparse : Document.parse text = .ok document := by
    simp only [text, document, items]
    rfl
  have hread : (Command.readDocument world "-").result = .ok document :=
    Stage.result_ofExcept_eq_ok_iff.mpr (Document.ofBytes_eq_ok_iff.mpr
      ⟨world.input, rfl, Document.read_eq_ok_iff.mpr ⟨text, rfl, hparse⟩⟩)
  have hstart : walk.start world =
      .ok ({ command := { maxSteps := some 3 } }, ⟨[{ threshold := some .warn }]⟩) := by
    decide +kernel
  obtain ⟨hexit, houtput, -, hevents⟩ := run_walk hstart rfl hread
  have hcount : nodeCount document = 6 := rfl
  refine ⟨hexit, by decide +kernel, houtput, hcount, ?_⟩
  exact ((hevents _).mpr ⟨3, rfl, by rw [hcount]; decide, rfl⟩).1

end Invocation

end TreeCursor
