/-!
# Statistics of floating-point samples

Mean, median and standard deviation. Floating-point addition is not associative, so the order of a
sum is part of its meaning. Here a long sum is cut in halves at a multiple of eight; up to 128 terms
are added in eight lanes that are joined in pairs; fewer than eight terms are added one after the
other. The halves keep rounding errors from growing with the number of terms, and the lanes are
independent of each other.
-/

namespace MultisetRecovery.Statistics

/-- The lanes after rows of eight terms are added to them, and the terms that fill no row. -/
def addRows (lanes : List Float) : List Float → List Float × List Float
  | a :: b :: c :: d :: e :: f :: g :: h :: rest =>
    addRows (List.zipWith (· + ·) lanes [a, b, c, d, e, f, g, h]) rest
  | rest => (lanes, rest)

/-- The sum of eight lanes, joined in pairs. -/
def joinLanes : List Float → Float
  | [a, b, c, d, e, f, g, h] => ((a + b) + (c + d)) + ((e + f) + (g + h))
  | _ => 0

/-- The sum of a list in the order described above. -/
def pairwiseSum (xs : List Float) : Float :=
  if xs.length < 8 then xs.foldl (· + ·) 0
  else if xs.length ≤ 128 then
    let (lanes, rest) := addRows (xs.take 8) (xs.drop 8)
    rest.foldl (· + ·) (joinLanes lanes)
  else
    let half := xs.length / 2 / 8 * 8
    pairwiseSum (xs.take half) + pairwiseSum (xs.drop half)
termination_by xs.length
decreasing_by
  · simp only [List.length_take]; omega
  · simp only [List.length_drop]; omega

/-- The mean of a list that is not empty. -/
def meanOf (xs : List Float) : Float := (0 + pairwiseSum xs) / Float.ofNat xs.length

/-- The mean; that of no samples is zero. -/
def mean (xs : List Float) : Float := if xs.isEmpty then 0 else meanOf xs

/-- The sample in the middle of the sorted samples, or the mean of the two there. -/
def median (xs : List Float) : Float :=
  let sorted := xs.mergeSort fun a b => a ≤ b
  let half := xs.length / 2
  if xs.isEmpty then 0
  else if xs.length % 2 = 1 then meanOf ((sorted.drop half).take 1)
  else meanOf ((sorted.drop (half - 1)).take 2)

/-- The standard deviation of the samples as a whole population. -/
def deviation (xs : List Float) : Float :=
  if xs.isEmpty then 0
  else
    let centre := meanOf xs
    (meanOf (xs.map fun x => (x - centre) * (x - centre))).sqrt

end MultisetRecovery.Statistics
