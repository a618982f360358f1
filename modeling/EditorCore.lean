import EditorCore.Cursor.Completion
import EditorCore.Document.Reader
import EditorCore.Event
import EditorCore.Files.Tree
import EditorCore.Paint.Painter
import EditorCore.Proofs.Cursor.Completion
import EditorCore.Proofs.Cursor.CurrentLine
import EditorCore.Proofs.Cursor.Tiling
import EditorCore.Proofs.Paint.Comments
import EditorCore.Proofs.Paint.ConflictFree
import EditorCore.Proofs.Paint.Nesting
import EditorCore.Proofs.Store.Contexts
import EditorCore.Proofs.Store.Failure
import EditorCore.Proofs.Store.Isolation
import EditorCore.Proofs.Store.NewestWins
import EditorCore.Proofs.Store.Outlived
import EditorCore.Settings.Options
import EditorCore.Source.File
import EditorCore.Store.Session
import EditorCore.Text.Line
import EditorCore.Trace
import EditorCore.Proofs.Paint.Claimants
import EditorCore.Proofs.Paint.Precedence
import EditorCore.Proofs.Source.LineIndex
import EditorCore.Proofs.Paint.Exact
import EditorCore.Proofs.Text.LineOf
import EditorCore.Proofs.Paint.Extent
import EditorCore.Proofs.Paint.RangeOrder
import EditorCore.Proofs.Source.Reorder
import EditorCore.Proofs.Source.TokensOfLine
import EditorCore.Proofs.Paint.Listing
import EditorCore.Proofs.Text.Partition
import EditorCore.Proofs.Cursor.WordBefore
import EditorCore.Proofs.Cursor.OnLine
import EditorCore.Proofs.Cursor.Window
import EditorCore.Proofs.Store.Tickets
import EditorCore.Proofs.Store.BuildReads
import EditorCore.Proofs.Store.FileKeys
import EditorCore.Proofs.Settings.Arguments
import EditorCore.Proofs.Settings.Reading
import EditorCore.Proofs.Settings.Validation
import EditorCore.Proofs.Cursor.Loop
import EditorCore.Proofs.Paint.Words
