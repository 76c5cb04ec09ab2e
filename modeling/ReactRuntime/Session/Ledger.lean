import ReactRuntime.Session.Kernel
import ReactRuntime.Session.Edit

/-!
# The ledger of a thread

Beside the kernel runs a ledger that notes which conditional puts were written, and
in which order. The protocol of the thread store is stated against it: the stored
object is the document of the edits written so far, and every pair of an etag and
a log that a store holds was read in that order. It rests on a contract for the
storage, so it serves the plain backend and the caching adapter alike.
-/
namespace ReactRuntime.Session
open Library Serde ReactRuntime.Core Storage

variable {τ B E : Type}

/-- The tasks whose conditional put was written, in order, and the last answer that each task got
from the backend for a HEAD. -/
structure Ledger (τ E : Type) where
  commits : List τ
  lastHead : τ → Option E

namespace Ledger

def init : Ledger τ E := ⟨[], fun _ => none⟩

def note [DecidableEq τ] (t : τ) : (c : KernelCall B E) → c.Answer → Kernel B E → Ledger τ E →
    Ledger τ E
  | .storage (.putJsonIfEtagMatches _ _ _), .ok (.written _), _, g =>
    { g with commits := g.commits ++ [t] }
  | .storage (.headEtag _), .ok head, _, g =>
    { g with lastHead := Function.update g.lastHead t head }
  | _, _, _, g => g

end Ledger

/-- The world of all tasks: each runs at its site. -/
def kernelWorld [DecidableEq E] (F : Format B E) (site : τ → Site) :
    World τ (Option CoreError) (Kernel B E) (KernelCall B E) KernelCall.Answer where
  exec t i c s := s.exec F (site t) i c

abbrev Audited (τ B E : Type) := Kernel B E × Ledger τ E

/-- The world of all tasks with the ledger. -/
def auditedWorld [DecidableEq τ] [DecidableEq E] (F : Format B E) (site : τ → Site) :
    World τ (Option CoreError) (Audited τ B E) (KernelCall B E) KernelCall.Answer :=
  (kernelWorld F site).instrument Ledger.note

def Audited.init : Audited τ B E := (Kernel.init, Ledger.init)

/-- The documents written so far. -/
def held (op : τ → ThreadOp) (s : Audited τ B E) : List Json := documents op s.2.commits

theorem held_isPrefix {op : τ → ThreadOp} {s m : Audited τ B E} (h : s.2.commits <+: m.2.commits) :
    held op s <+: held op m :=
  documents_isPrefix h

section Protocol
variable [DecidableEq τ] [DecidableEq E] (F : Format B E) (site : τ → Site) (op : τ → ThreadOp)
  (key : String)

/-- An entry of a caching adapter that can only be served while it is current. -/
def EntryOk (held : List Json) : CacheEntry B E → Prop
  | .missing => True
  | .bytes _ none => False
  | .bytes bytes (some etag) =>
    ∃ v, Snapshot F.tag held etag v ∧ ∀ w, F.parse bytes = .ok w → w = v

/-- What holds between any two calls. -/
structure Consistent (s : Audited τ B E) : Prop where
  effective : Effective op s.2.commits
  object : s.1.objects.get key = (held op s).getLast?.map F.render
  logs : ∀ owner entry, s.1.logs owner key = some entry →
    Snapshot F.tag (held op s) entry.etag entry.log.toValue
  entries : ∀ owner entry, s.1.entries owner key = some entry →
    EntryOk F (held op s) entry

/-- What a task can count on while the others move: no commit is taken back, and only the task
itself commits in its name. -/
structure Undisturbed (t : τ) (s s' : Audited τ B E) : Prop where
  grown : s.2.commits <+: s'.2.commits
  own : s'.2.commits.count t = s.2.commits.count t
  lastHead : s'.2.lastHead t = s.2.lastHead t

omit [DecidableEq E] in
theorem note_undisturbed {t u : τ} (h : t ≠ u) (c : KernelCall B E) (a : c.Answer)
    (k k' : Kernel B E) (g : Ledger τ E) :
    Undisturbed t (k, g) (k', Ledger.note u c a k g) := by
  unfold Ledger.note
  split
  · exact ⟨List.prefix_append _ _, by simp [h.symm], rfl⟩
  · exact ⟨List.prefix_refl _, rfl, by simp [h]⟩
  · exact ⟨List.prefix_refl _, rfl, rfl⟩

omit [DecidableEq E] in
theorem note_grown (t : τ) (c : KernelCall B E) (a : c.Answer) (k : Kernel B E) (g : Ledger τ E) :
    g.commits <+: (Ledger.note t c a k g).commits := by
  unfold Ledger.note
  split
  · exact List.prefix_append _ _
  · exact List.prefix_refl _
  · exact List.prefix_refl _

/-- No run takes a commit back. -/
theorem run_grown {α : Type} {ls : List (τ × Option CoreError)}
    {p p' : Pool τ (Audited τ B E) (KernelCall B E) KernelCall.Answer α}
    (h : ((auditedWorld F site).machine α).run p ls = some p') :
    p.shared.2.commits <+: p'.shared.2.commits := by
  apply Machine.run_relation (M := (auditedWorld F site).machine α)
    (R := fun p p' => p.shared.2.commits <+: p'.shared.2.commits) ?_ ?_ ?_ h
  · exact fun a => List.prefix_refl _
  · exact fun a b c hab hbc => List.IsPrefix.trans hab hbc
  · intro a l b hstep
    obtain ⟨c, k, s, ans, -, he, rfl⟩ := World.step_eq_some.mp hstep
    obtain ⟨-, hg⟩ := World.instrument_exec.mp he
    rw [hg]
    exact note_grown l.1 c ans a.shared.1 a.shared.2

/-- The protocol of the thread store; `guard` restricts the calls of a run. -/
def threadProtocol (guard : τ → KernelCall B E → Audited τ B E → Prop) :
    Protocol (auditedWorld F site) where
  inv := Consistent F op key
  rely := Undisturbed
  guard := guard
  rely_refl t s := ⟨List.prefix_refl _, rfl, rfl⟩
  rely_trans t a b c hab hbc := ⟨hab.grown.trans hbc.grown, hbc.own.trans hab.own,
    hbc.lastHead.trans hab.lastHead⟩
  frame u i c s s' a h t ht := by
    obtain ⟨-, hg⟩ := World.instrument_exec.mp h
    have := note_undisturbed ht c a s.1 s'.1 s.2
    rw [← hg] at this
    exact this

end Protocol
end ReactRuntime.Session
