import NodeShader.Main
import NodeShader.Metrics
import NodeShader.Proofs.Document.Exact
import NodeShader.Proofs.Document.RoundTrip
import NodeShader.Proofs.Graph.Addressable
import NodeShader.Proofs.Graph.Linking
import NodeShader.Proofs.Graph.Queries
import NodeShader.Proofs.Node.Registrations
import NodeShader.Proofs.Pass.Correspondence
import NodeShader.Proofs.Pass.Delivery
import NodeShader.Proofs.Pass.Demand
import NodeShader.Proofs.Pass.Reach
import NodeShader.Proofs.Pass.Schedule
import NodeShader.Proofs.Pass.Scope
import NodeShader.Proofs.Pass.Typing
import NodeShader.Proofs.Source.UserNames
import NodeShader.Proofs.Number.Nearest
import NodeShader.Proofs.Number.Shortest
import NodeShader.Proofs.Source.Literals
import NodeShader.Proofs.Node.Fallbacks
import NodeShader.Proofs.Node.Loading
import NodeShader.Proofs.Text.EditDistance
import NodeShader.Proofs.Node.Listings
import NodeShader.Proofs.Graph.Encoding
import NodeShader.Proofs.Metrics
import NodeShader.Proofs.Shader.Conversion
import NodeShader.Proofs.Shader.Version
