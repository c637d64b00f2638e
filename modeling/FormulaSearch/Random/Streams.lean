import FormulaSearch.Random.Keystream

/-!
# Other sources

Sources for experiments: a fixed list of words that is repeated, and a counter whose values are
mixed.
-/

namespace FormulaSearch

/-- Words taken in turn, over and over. An empty list gives zeros. -/
structure RepeatedWords where
  words : Array UInt64
  position : Nat := 0

namespace RepeatedWords

def next (s : RepeatedWords) : UInt64 × RepeatedWords :=
  (s.words.getD s.position 0, { s with position := (s.position + 1) % s.words.size })

instance : WordSource RepeatedWords where
  word64 := next
  word32 s := let (w, s) := s.next; (w.toUInt32, s)

end RepeatedWords

/-- A counter with a large odd step, mixed by two multiplications. -/
structure MixedCounter where
  counter : UInt64

namespace MixedCounter

def next (s : MixedCounter) : UInt64 × MixedCounter :=
  let c := s.counter + 0x9E3779B97F4A7C15
  let z := (c ^^^ (c >>> 30)) * 0xBF58476D1CE4E5B9
  let z := (z ^^^ (z >>> 27)) * 0x94D049BB133111EB
  (z ^^^ (z >>> 31), ⟨c⟩)

instance : WordSource MixedCounter where
  word64 := next
  word32 s := let (w, s) := s.next; (w.toUInt32, s)

end MixedCounter

inductive AnySource where
  | keystream (s : Keystream)
  | repeated (s : RepeatedWords)
  | mixed (s : MixedCounter)

instance : WordSource AnySource where
  word32
    | .keystream s => let (w, s) := WordSource.word32 s; (w, .keystream s)
    | .repeated s => let (w, s) := WordSource.word32 s; (w, .repeated s)
    | .mixed s => let (w, s) := WordSource.word32 s; (w, .mixed s)
  word64
    | .keystream s => let (w, s) := WordSource.word64 s; (w, .keystream s)
    | .repeated s => let (w, s) := WordSource.word64 s; (w, .repeated s)
    | .mixed s => let (w, s) := WordSource.word64 s; (w, .mixed s)

end FormulaSearch
