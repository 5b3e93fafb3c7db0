import KnowledgeTree.Files.Folder
import KnowledgeTree.Http.Router
import KnowledgeTree.Main
import KnowledgeTree.Proofs.Acceptance
import KnowledgeTree.Proofs.Commands
import KnowledgeTree.Proofs.Confidentiality
import KnowledgeTree.Proofs.Distance
import KnowledgeTree.Proofs.Gateway
import KnowledgeTree.Proofs.GrantHistory
import KnowledgeTree.Proofs.Interleaving
import KnowledgeTree.Proofs.RoundTrip
import KnowledgeTree.Time
import KnowledgeTree.Uuid
import KnowledgeTree.Proofs.Assembly
import KnowledgeTree.Proofs.Deletion
import KnowledgeTree.Proofs.Cycles
import KnowledgeTree.Proofs.Ancestry
import KnowledgeTree.Proofs.Guard
import KnowledgeTree.Proofs.Acyclic
import KnowledgeTree.Proofs.Induced
import KnowledgeTree.Proofs.Publishing
import KnowledgeTree.Proofs.Disclosure
import KnowledgeTree.Proofs.Names
import KnowledgeTree.Proofs.Duality
import KnowledgeTree.Proofs.Sequence
import KnowledgeTree.Proofs.Creation
import KnowledgeTree.Proofs.OwnWrites
import KnowledgeTree.Proofs.ApiKey
import KnowledgeTree.Proofs.Exhaustion
import KnowledgeTree.Proofs.Bodies
import KnowledgeTree.Proofs.Roles
import KnowledgeTree.Proofs.Cancellation
