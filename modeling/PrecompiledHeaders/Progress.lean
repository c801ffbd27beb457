/-! Progress over all queued and running tasks. -/
namespace PrecompiledHeaders

structure Progress where
  completed : Nat
  total : Nat
  deriving DecidableEq, Repr

namespace Progress

def zero : Progress := ⟨0, 0⟩

instance : Inhabited Progress := ⟨zero⟩

def text (p : Progress) : String := s!"{p.completed}/{p.total}"

end Progress

/-- The counter and everything it has published, oldest first. -/
structure ProgressCounter where
  current : Progress
  published : List Progress
  deriving DecidableEq, Repr

namespace ProgressCounter

def zero : ProgressCounter := ⟨.zero, []⟩

instance : Inhabited ProgressCounter := ⟨zero⟩

/-- A new value is published; one that is complete is forgotten right after. -/
def publish (c : ProgressCounter) (p : Progress) : Progress × ProgressCounter :=
  (p, ⟨if p.total ≤ p.completed then .zero else p, c.published ++ [p]⟩)

def addTotal (c : ProgressCounter) (n : Nat) : Progress × ProgressCounter :=
  c.publish ⟨c.current.completed, c.current.total + n⟩

/-- The total stops at zero. -/
def removeTotal (c : ProgressCounter) (n : Nat) : Progress × ProgressCounter :=
  c.publish ⟨c.current.completed, c.current.total - n⟩

def addProgress (c : ProgressCounter) (n : Nat) : Progress × ProgressCounter :=
  c.publish ⟨c.current.completed + n, c.current.total⟩

def describe (c : ProgressCounter) : String :=
  "ProgressCounter \x7b state: Progress \x7b " ++ s!"completed: {c.current.completed}, total: "
    ++ s!"{c.current.total}" ++ " \x7d, .. \x7d"

end ProgressCounter
end PrecompiledHeaders
