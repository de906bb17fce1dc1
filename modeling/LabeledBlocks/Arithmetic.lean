/-!
# Powers, products and sums

Powers of numbers, and what products and sums of lists start from, are those of the core library,
whatever other instances for them are in scope.
-/

attribute [instance (2000), default_instance 20000] instPowNat

attribute [instance (2000)] One.ofOfNat1 Zero.ofOfNat0
