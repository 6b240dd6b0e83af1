import Ambient.Files.Tree
import Ambient.Main
import Ambient.Proofs.Assembly.Outcome
import Ambient.Proofs.Assembly.Qualify
import Ambient.Proofs.Assembly.Regroup
import Ambient.Proofs.Parser.Types
import Ambient.Proofs.Tree.Balance
import Ambient.Proofs.Tree.Like
import Ambient.Proofs.Tree.LikeDecl
import Ambient.Proofs.Parser.Twin
import Ambient.Proofs.Parser.TwinNames
import Ambient.Proofs.Parser.TwinTypes
import Ambient.Proofs.Parser.TwinDecls
import Ambient.Proofs.Parser.Progress
import Ambient.Proofs.Parser.Counters
import Ambient.Proofs.Parser.Positions
import Ambient.Proofs.Text.LineStyle
import Ambient.Proofs.Token.LineStyle
import Ambient.Proofs.Assembly.Like
import Ambient.Proofs.Parser.TwinStyles
import Ambient.Proofs.Project.LineEndings
import Ambient.Proofs.Parser.ClassMembers
import Ambient.Proofs.Parser.Decls
import Ambient.Proofs.Tree.SpellingDecl
import Ambient.Proofs.Assembly.Builds
import Ambient.Proofs.Project.Regenerate
import Ambient.Proofs.Parser.Layout
import Ambient.Proofs.Parser.Faithful
import Ambient.Proofs.Token.Attachment
import Ambient.Proofs.Parser.AliasFront
import Ambient.Proofs.Parser.Operand
import Ambient.Proofs.Token.Quoted
import Ambient.Proofs.Parser.QuotedPlaces
import Ambient.Proofs.Parser.Bindings
import Ambient.Proofs.Parser.Initializers
import Ambient.Proofs.Text.Terminators
import Ambient.Proofs.Parser.Template
import Ambient.Proofs.Project.Discovery
import Ambient.Proofs.Assembly.Comments
import Ambient.Proofs.Assembly.Separation
import Ambient.Proofs.Token.Tiling
import Ambient.Proofs.Parser.RoundTrip
import Ambient.Proofs.Assembly.Legible
