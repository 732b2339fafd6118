import BlockModels.Atlas.Basic
import BlockModels.Block
import BlockModels.Catalog.Face
import BlockModels.Catalog.Reader
import BlockModels.Catalog.Shape
import BlockModels.Catalog.States
import BlockModels.Command.Run
import BlockModels.Compilation.Basic
import BlockModels.Condition.Evaluation
import BlockModels.Expansion.Basic
import BlockModels.Failure
import BlockModels.Json.Parser
import BlockModels.Json.Printer
import BlockModels.Json.Reader
import BlockModels.Main
import BlockModels.Mesh.Projection
import BlockModels.Mesh.Texturing
import BlockModels.Placeholder.Interpolation
import BlockModels.Proofs.Compilation.Placing
import BlockModels.Proofs.Compilation.Strictness
import BlockModels.Proofs.Expansion.Refinement
import BlockModels.Proofs.Mesh.Merging
import BlockModels.Proofs.Packing.Places
import BlockModels.Proofs.Packing.Validity
import BlockModels.Scalar
import BlockModels.Space.Rotation
import BlockModels.Text.Blank
import BlockModels.Text.Fold
import BlockModels.Text.Quoted
import BlockModels.Text.Word
import BlockModels.Texture.Loading
import BlockModels.Texture.Resolution
import BlockModels.Proofs.Expansion.CopyChain
import BlockModels.Proofs.Json.Quoting
import BlockModels.Proofs.Scalar.Written
import BlockModels.Proofs.Texture.Keys
import BlockModels.Proofs.Expansion.Asking
import BlockModels.Proofs.Mesh.Referencing
import BlockModels.Proofs.Compilation.Blocks
import BlockModels.Proofs.Atlas.Order
import BlockModels.Proofs.Compilation.Joining
import BlockModels.Proofs.Compilation.Viewing
import BlockModels.Proofs.Compilation.Composing
import BlockModels.Proofs.Decimal.Interval
import BlockModels.Proofs.Decimal.Shortest
import BlockModels.Proofs.Decimal.Layout
import BlockModels.Proofs.Scalar.Decimals
import BlockModels.Proofs.Json.Numbers
import BlockModels.Proofs.Catalog.Opacities
import BlockModels.Proofs.Compilation.Scaling
import BlockModels.Proofs.Compilation.Trimming
import BlockModels.Proofs.Condition.Meaning
import BlockModels.Proofs.Placeholder.Filling
import BlockModels.Proofs.Mesh.Reduction
import BlockModels.Proofs.Compilation.Slots
import BlockModels.Proofs.Compilation.Origins
import BlockModels.Proofs.Expansion.Texts
import BlockModels.Proofs.Mesh.Parts
import BlockModels.Proofs.Mesh.Rows
import BlockModels.Proofs.Mesh.Texels
import BlockModels.Proofs.Image.Needed
import BlockModels.Proofs.Image.Visible
import BlockModels.Proofs.Mesh.Cropping
import BlockModels.Proofs.Mesh.Seams
import BlockModels.Proofs.Atlas.Layering
import BlockModels.Proofs.Condition.Openness
import BlockModels.Proofs.Condition.Integers
import BlockModels.Proofs.Texture.FirstOccurrences
import BlockModels.Proofs.Texture.Fallbacks
import BlockModels.Proofs.Block.Identity
import BlockModels.Proofs.Catalog.Sources
import BlockModels.Proofs.Catalog.Shapes
import BlockModels.Proofs.Texture.Loading
import BlockModels.Proofs.Mesh.Unfolding
import BlockModels.Proofs.Packing.Area
import BlockModels.Proofs.Placeholder.Slicing
