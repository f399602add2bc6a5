/-!
# Preferred instances

Powers, the zero that a sum starts from, and the comparison of byte arrays are those of the core
library in every module, whether or not the instances that Mathlib gives for the same types are in
scope.  The program's modules import no Mathlib and the proofs about them may, so that both speak of
the same terms.
-/

attribute [default_instance 20000, instance (20000)] instPowNat

attribute [instance (20000)] Zero.ofOfNat0 ByteArray.instDecidableEq
