import ViewStyle.Theme.Notification
import ViewStyle.Binding
import ViewStyle.Proofs.Cascade.Reference
import ViewStyle.Proofs.Stylesheet.NormalKeys
import ViewStyle.Proofs.Binding.Session
import ViewStyle.Proofs.Condition.Merging
import ViewStyle.Proofs.Stylesheet.Building
import ViewStyle.Proofs.Condition.Precedence
import ViewStyle.Proofs.Stylesheet.NestedImports
import ViewStyle.Proofs.Theme.LastLoad
import ViewStyle.Proofs.Theme.Log
import ViewStyle.Proofs.Token.Brackets
import ViewStyle.Proofs.Token.Rendering
import ViewStyle.Proofs.Stylesheet.Assembly
import ViewStyle.Proofs.Stylesheet.RawText
import ViewStyle.Proofs.Stylesheet.Loading
import ViewStyle.Proofs.Stylesheet.Cycles
import ViewStyle.Proofs.Binding.Recording
import ViewStyle.Proofs.Binding.Originals
import ViewStyle.Proofs.Condition.Located
import ViewStyle.Proofs.Stylesheet.Located
import ViewStyle.Proofs.Binding.Writes
import ViewStyle.Proofs.Stylesheet.Indexed
import ViewStyle.Proofs.Cascade.Refinement
import ViewStyle.Proofs.Condition.Readability
import ViewStyle.Proofs.Stylesheet.Values
import ViewStyle.Proofs.Layout.VisualFormat
import ViewStyle.Proofs.Layout.Equations
import ViewStyle.Proofs.Layout.Bounds
import ViewStyle.Proofs.Binding.Layouts
import ViewStyle.Proofs.Literal.Decoding
import ViewStyle.Proofs.Token.Endings
import ViewStyle.Proofs.Token.Extracts
import ViewStyle.Proofs.Literal.Hexadecimal
import ViewStyle.Proofs.Rule.LastWrite
