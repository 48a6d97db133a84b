import TreeCursor.Main
import TreeCursor.Proofs.Json.Lawful
import TreeCursor.Proofs.Term.Lawful
import TreeCursor.Proofs.Tree.Route
import TreeCursor.Proofs.Zipper.Reachable
import TreeCursor.Term.Encoding
import TreeCursor.Term.Render
import TreeCursor.Zipper.Traverse
import TreeCursor.Proofs.Zipper.Navigation
import TreeCursor.Proofs.Zipper.Editing
import TreeCursor.Proofs.Zipper.Walk
import TreeCursor.Proofs.Zipper.Rewriting
import TreeCursor.Proofs.Zipper.Pruning
import TreeCursor.Proofs.Tree.Shape
import TreeCursor.Proofs.Tree.Preorder
import TreeCursor.Proofs.Zipper.Scanning
import TreeCursor.Proofs.Script.Reading
import TreeCursor.Proofs.Script.Grammar
import TreeCursor.Proofs.Script.Routes
import TreeCursor.Proofs.Json.Members
import TreeCursor.Proofs.Json.Equality
import TreeCursor.Proofs.Zipper.Equality
import TreeCursor.Proofs.Zipper.Contents
import TreeCursor.Proofs.Log.Threshold
import TreeCursor.Proofs.Zipper.Search
import TreeCursor.Proofs.Json.Extent
import TreeCursor.Proofs.Command.Logging
import TreeCursor.Proofs.Command.Search
import TreeCursor.Proofs.Zipper.Removal
import TreeCursor.Proofs.Command.Walking
import TreeCursor.Proofs.Json.Reading
import TreeCursor.Proofs.Json.RoundTrip
import TreeCursor.Proofs.Term.RoundTrip
import TreeCursor.Proofs.Zipper.Inverse
import TreeCursor.Proofs.Zipper.Skipping
import TreeCursor.Proofs.Zipper.Termination
import TreeCursor.Proofs.Zipper.Expanding
import TreeCursor.Proofs.Zipper.Commuting
import TreeCursor.Proofs.Zipper.Reentry
import TreeCursor.Proofs.Script.Running
import TreeCursor.Proofs.Zipper.Extremes
import TreeCursor.Proofs.Zipper.Undoing
import TreeCursor.Proofs.Command.Failing
import TreeCursor.Proofs.Siblings
import TreeCursor.Proofs.Zipper.Snapshots
import TreeCursor.Proofs.Zipper.Rendering
import TreeCursor.Proofs.Text.Ranges
