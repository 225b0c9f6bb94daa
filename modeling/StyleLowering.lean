import StyleLowering.Transform
import StyleLowering.Proofs.Css.Template
import StyleLowering.Proofs.Css.Fusion
import StyleLowering.Proofs.ImportPass.Dangling
import StyleLowering.Proofs.Transform.ClassNames
import StyleLowering.Proofs.Transform.Closed
import StyleLowering.Proofs.Transform.Exports
import StyleLowering.Proofs.Transform.Frame
import StyleLowering.Proofs.ClassName
import StyleLowering.Proofs.Transform.Phases
import StyleLowering.Proofs.Labels
import StyleLowering.Proofs.Transform.Coherence
import StyleLowering.Proofs.Rewrite.Labels
import StyleLowering.Proofs.Walk.Labels
import StyleLowering.Proofs.Recipe.Collection
import StyleLowering.Proofs.ImportPass.Loop
import StyleLowering.Proofs.ImportPass.Guard
import StyleLowering.Proofs.ImportPass.Sites
import StyleLowering.Proofs.ImportPass.Expansion
import StyleLowering.Proofs.Rewrite.Renumbering
import StyleLowering.Proofs.File.Recoding
import StyleLowering.Proofs.Walk.Recoding
import StyleLowering.Proofs.ImportPass.Recoding
import StyleLowering.Proofs.Transform.Recoding
import StyleLowering.Proofs.Transform.Instances
import StyleLowering.Proofs.Styled.Precedence
import StyleLowering.Proofs.Imports.Flush
import StyleLowering.Proofs.Transform.Lowering
import StyleLowering.Proofs.Hash.Blocks
import StyleLowering.Proofs.Path.Resolve
import StyleLowering.Proofs.Styled.Location
import StyleLowering.Proofs.ImportPass.Registry
import StyleLowering.Proofs.Scope.Conversions
import StyleLowering.Proofs.Transform.Names
import StyleLowering.Proofs.Css.Annotate
import StyleLowering.Proofs.SourceMap.Comment
import StyleLowering.Proofs.Imports.Search
