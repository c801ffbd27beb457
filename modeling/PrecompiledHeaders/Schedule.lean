import PrecompiledHeaders.Pipeline
/-! One run out of all interleavings: the coordinator goes first whenever it can, then the worker
that moved last, then the others in their order. A gate in front of the compiler can hold builds
back; permits go to the builds that have waited longest. -/
namespace PrecompiledHeaders

structure Gate where
  /-- Builds planned now have to wait. -/
  hold : Bool
  permits : Nat
  /-- The workers that wait, longest first. -/
  line : List Nat
  deriving DecidableEq, Repr

namespace Gate

def free : Gate := ⟨false, 0, []⟩

instance : Inhabited Gate := ⟨free⟩

def grant (g : Gate) (n : Nat) : Gate := { g with permits := g.permits + n }

def join (g : Gate) (i : Nat) : Gate := { g with line := g.line ++ [i] }

/-- The first in line, if there is a permit, and the gate without both. -/
def admit? (g : Gate) : Option (Nat × Gate) :=
  match g.line with
  | i :: rest => if 0 < g.permits then some (i, ⟨g.hold, g.permits - 1, rest⟩) else none
  | [] => none

end Gate

structure Run (W : Type) where
  pipeline : Pipeline W
  gate : Gate
  /-- The worker that moved last. -/
  turn : Nat

namespace Run

variable {W : Type} [World W]

def start (p : Pipeline W) : Run W := ⟨p, .free, 0⟩

/-- Worker `i` waits at the gate. -/
def waits (p : Pipeline W) (i : Nat) : Bool :=
  match p.workers[i]? with
  | some ⟨_, .compiling _ _ _ waits⟩ => waits
  | _ => false

/-- A step of worker `i` that needs no permit. -/
def work (r : Run W) (i : Nat) : Option (Run W) :=
  (r.pipeline.work i r.gate.hold false).map fun p =>
    ⟨p, if waits p i then r.gate.join i else r.gate, i⟩

/-- The first in line passes the gate. -/
def pass (r : Run W) : Option (Run W) := do
  let (i, gate) ← r.gate.admit?
  return ⟨← r.pipeline.work i r.gate.hold true, gate, i⟩

/-- The next step; none if nothing can move. -/
def advance (r : Run W) : Option (Run W) :=
  match r.pipeline.coordinate with
  | some p => some { r with pipeline := p }
  | none =>
    (r.work r.turn).orElse fun _ => r.pass.orElse fun _ =>
      (List.range r.pipeline.workers.length).findSome? r.work

def runFor : Nat → Run W → Run W
  | 0, r => r
  | fuel + 1, r =>
    match r.advance with
    | none => r
    | some r => runFor fuel r

/-- How many parts an event may bring. -/
def partsIn : Event → Nat
  | .addParts parts _ => parts.length
  | _ => 0

/-- At most so many steps are left: an event is one step and queues at most two tasks for each
part, and a task is claimed, looked up, planned, compiled, ended, announced, reported and handled. -/
def stepsLeft (r : Run W) : Nat :=
  let p := r.pipeline
  let parts := p.parts.size + (p.inbox.map partsIn).foldl (· + ·) 0
  let tasks := p.inbox.length * (2 * parts) + p.queue.pending.system.length
    + p.queue.pending.project.length + p.workers.length
  p.inbox.length + 8 * tasks + 1

/-- Runs until nothing moves. Once the coordinator has stopped, the workers end what they hold and
take up nothing more. -/
def settle (r : Run W) : Run W :=
  let r := r.runFor r.stepsLeft
  if r.pipeline.coordinator = .stopped then { r with pipeline := r.pipeline.close } else r

/-- The coordinator stops, all builds that were held back are let go, and the workers empty the
queue. -/
def windDown (r : Run W) : Pipeline W :=
  let r : Run W := ⟨(r.pipeline.send .shutdown).2,
    { r.gate with hold := false, permits := r.pipeline.workers.length }, r.turn⟩
  (r.runFor r.stepsLeft).pipeline

/-- The next run over the same world and the same artifacts, after this one was wound down. Files
are numbered anew. -/
def restart (r : Run W) : Run W :=
  let old := r.windDown
  start (.start ⟨old.workspace.world, .empty⟩ old.pchDir old.provider.store.reopened old.artifacts
    (old.workers.map (·.scope)) old.exitWhenIdle old.watch.isSome)

end Run
end PrecompiledHeaders
