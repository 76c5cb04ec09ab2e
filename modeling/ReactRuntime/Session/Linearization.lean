import ReactRuntime.Session.Writers

/-!
# Linearization of the thread log

Any number of thread stores, in any number of processes, over one backend object.
Every schedule of their storage calls, cache accesses and locks leaves the object
at the document that the committed calls make of the empty log, in the order of
their conditional puts.
-/
namespace ReactRuntime.Session
open Library Serde ReactRuntime.Core Storage

/-- What a call on a thread returns. -/
inductive Returned where
  | unit (r : Except CoreError Unit)
  | phase (r : Except CoreError (Option (Nat × String)))
  | log (r : Except CoreError ThreadLog)
deriving DecidableEq

def Returned.isOk : Returned → Bool
  | .unit (.ok _) | .phase (.ok _) | .log (.ok _) => true
  | .unit (.error _) | .phase (.error _) | .log (.error _) => false

variable {τ B E : Type} [DecidableEq E]

/-- The program of a call on a thread. -/
def ThreadOp.program {C : Type} {A : C → Type} (self : ThreadStore C A B E)
    (showEtag : Option E → String) (threadId : String) : ThreadOp → Program C A Returned
  | .append step => (self.appendStep showEtag threadId step).bind fun r => .ret (.unit r)
  | .preflight agent suiteId initialPhase ts =>
    (self.ensurePreflightPhaseStep showEtag threadId agent suiteId initialPhase ts).bind
      fun r => .ret (.phase r)
  | .setTitleIfAbsent title =>
    (self.setTitleIfAbsent showEtag threadId title).bind fun r => .ret (.unit r)
  | .lockTitle title => (self.lockTitle showEtag threadId title).bind fun r => .ret (.unit r)
  | .get => (self.get threadId).bind fun r => .ret (.log r)

/-- All tasks before their first call. -/
def ThreadOp.start (self : ThreadStore (KernelCall B E) KernelCall.Answer B E)
    (showEtag : Option E → String) (threadId : String) (op : τ → ThreadOp) :
    Pool τ (Audited τ B E) (KernelCall B E) KernelCall.Answer Returned where
  shared := Audited.init
  task t := (op t).program self showEtag threadId

variable [DecidableEq τ] {F : ExactFormat B E} {site : τ → Site}
  {op : τ → ThreadOp} {key : String} {guard : τ → KernelCall B E → Audited τ B E → Prop} {t : τ}
  {storage : StorageAdapter (KernelCall B E) KernelCall.Answer B E} {s m m' : Audited τ B E}

/-- What a call has done when it returns. -/
structure OpPost (op : τ → ThreadOp) (t : τ) (s : Audited τ B E) (r : Returned)
    (m : Audited τ B E) : Prop where
  outcome : Later t s m ∨ Committed t s m
  failed : r.isOk = false → Later t s m
  appended : ∀ step, op t = .append step → r.isOk = true → Committed t s m
  read : ∀ log, r = .log (.ok log) →
    HeldFrom (held op s).length (held op m) log.toValue

omit [DecidableEq E] in
theorem OpPost.grow {r : Returned} (h : OpPost op t s r m) (hm : Later t m m') :
    OpPost op t s r m' where
  outcome := h.outcome.imp (fun h => h.trans hm) (fun h => h.trans hm)
  failed hr := (h.failed hr).trans hm
  appended step hs hr := (h.appended step hs hr).trans hm
  read log hr := (h.read log hr).grow hm.held_isPrefix

omit [DecidableEq E] in
theorem OpPost.of_append {r : Except CoreError Unit} (h : AppendPost t s r m) :
    OpPost op t s (.unit r) m := by
  cases r with
  | ok _ => exact ⟨Or.inr h, by simp [Returned.isOk], fun _ _ _ => h, by simp⟩
  | error _ => exact ⟨Or.inl h, fun _ => h, by simp [Returned.isOk], by simp⟩

omit [DecidableEq E] in
/-- A writer that may find nothing to do; `w` names its kind of answer. -/
theorem OpPost.of_edit {α : Type} {w : Except CoreError α → Returned}
    (hok : ∀ a, (w (.ok a)).isOk = true) (hlog : ∀ r log, w r ≠ .log (.ok log))
    (hop : ∀ step, op t ≠ .append step) {r : Except CoreError α} (h : EditPost t s r m) :
    OpPost op t s (w r) m := by
  cases r with
  | ok a => exact ⟨h, by simp [hok], fun step hs => absurd hs (hop step),
      fun log hr => absurd hr (hlog _ log)⟩
  | error e => exact ⟨Or.inl h, fun _ => h, fun step hs => absurd hs (hop step),
      fun log hr => absurd hr (hlog _ log)⟩

section Program
variable (hst : Coherent F site op key guard t storage) (htag : Function.Injective F.tag)
  {threadKey : String → Except String String} {threadId : String}
  (hkey : threadKey threadId = .ok key) (showEtag : Option E → String)
include hst htag hkey

theorem meets_program (s : Audited τ B E) : (threadProtocol F site op key guard).Meets t
    (OpPost op t s)
    ((op t).program (ThreadStore.over storage threadKey) showEtag threadId) s := by
  cases he : op t with
  | append step =>
    apply Protocol.Meets.bind
    apply (meets_appendStep hst threadKey showEtag he hkey s).mono
    exact fun r m _ hr => meets_ret (OpPost.of_append hr) fun _ hd h => h.grow hd
  | preflight agent suiteId initialPhase ts =>
    apply Protocol.Meets.bind
    apply (meets_ensurePreflightPhaseStep hst threadKey showEtag he hkey s).mono
    exact fun r m _ hr => meets_ret (OpPost.of_edit (w := .phase) (fun _ => rfl) (by simp)
      (by simp [he]) hr) fun _ hd h => h.grow hd
  | setTitleIfAbsent title =>
    apply Protocol.Meets.bind
    apply (meets_setTitleIfAbsent hst threadKey showEtag he hkey s).mono
    exact fun r m _ hr => meets_ret (OpPost.of_edit (w := .unit) (fun _ => rfl) (by simp)
      (by simp [he]) hr) fun _ hd h => h.grow hd
  | lockTitle title =>
    apply Protocol.Meets.bind
    apply (meets_lockTitle hst threadKey showEtag he hkey s).mono
    exact fun r m _ hr => meets_ret (OpPost.of_edit (w := .unit) (fun _ => rfl) (by simp)
      (by simp [he]) hr) fun _ hd h => h.grow hd
  | get =>
    apply Protocol.Meets.bind
    apply (meets_get hst threadKey htag hkey s).mono
    intro r m _ hr
    refine meets_ret ⟨Or.inl hr.1, fun _ => hr.1, fun step hs => ?_, fun log hl => ?_⟩
      fun _ hd h => h.grow hd
    · rw [he] at hs
      cases hs
    · cases hl
      exact hr.2 log rfl

end Program

omit [DecidableEq τ] [DecidableEq E] in
theorem init_consistent : Consistent F op key (Audited.init : Audited τ B E) where
  effective := Effective.nil
  object := rfl
  logs _ _ h := nomatch h
  entries _ _ h := nomatch h

/-- What the ledger of a reachable state says about the object and the calls that returned. -/
structure Linearized (F : Format B E) (op : τ → ThreadOp) (key : String)
    (p : Pool τ (Audited τ B E) (KernelCall B E) KernelCall.Answer Returned) : Prop where
  stored : p.shared.1.objects.get key = if p.shared.2.commits = [] then none
    else some (F.render (replay op p.shared.2.commits).toValue)
  effective : Effective op p.shared.2.commits
  steps : (replay op p.shared.2.commits).steps =
    p.shared.2.commits.flatMap fun t => (op t).added
  result : (replay op p.shared.2.commits).result =
    ((replay op p.shared.2.commits).steps.filterMap ThreadStep.result).getLast?
  once : ∀ t r, p.task t = .ret r → p.shared.2.commits.count t ≤ 1
  appended : ∀ t step r, op t = .append step → p.task t = .ret r → r.isOk = true →
    p.shared.2.commits.count t = 1
  failed : ∀ t r, p.task t = .ret r → r.isOk = false → t ∉ p.shared.2.commits

/-- A pool whose tasks all meet their contracts from the start is linearized. -/
theorem linearized_of_sound {p : Pool τ (Audited τ B E) (KernelCall B E) KernelCall.Answer Returned}
    (h : (threadProtocol F site op key guard).Sound
      (fun t r m => OpPost op t Audited.init r m) p) : Linearized F op key p where
  stored := by
    have hobj := h.1.object
    rw [hobj, held, documents_getLast?_eq]
    split_ifs <;> rfl
  effective := h.1.effective
  steps := h.1.effective.replay_steps
  result := h.1.effective.replay_result
  once t r ht := by
    have hc : (Audited.init : Audited τ B E).2.commits.count t = 0 := rfl
    rcases (h.returned ht).outcome with hl | hl
    · rw [hl.own, hc]
      omega
    · rw [hl.own, hc]
  appended t step r hs ht hr := by
    have hc := ((h.returned ht).appended step hs hr).own
    rw [hc]
    rfl
  failed t r ht hr := by
    have hc := ((h.returned ht).failed hr).own
    rw [← List.count_eq_zero, hc]
    rfl

section Backend
variable {threadKey : String → Except String String} {threadId : String}
  {showEtag : Option E → String}

/-- The pool of thread stores over the plain backend. -/
def backendPool (threadKey : String → Except String String) (showEtag : Option E → String)
    (threadId : String) (op : τ → ThreadOp) :
    Pool τ (Audited τ B E) (KernelCall B E) KernelCall.Answer Returned :=
  ThreadOp.start (ThreadStore.over backend threadKey) showEtag threadId op

/-- The protocol of the plain backend restricts no run. -/
abbrev freeProtocol (F : Format B E) (site : τ → Site) (op : τ → ThreadOp) (key : String) :
    Protocol (auditedWorld F site) :=
  threadProtocol F site op key fun _ _ _ => True

theorem backendPool_sound (htag : Function.Injective F.tag)
    (hkey : threadKey threadId = .ok key) {ls : List (τ × Option CoreError)}
    {p : Pool τ (Audited τ B E) (KernelCall B E) KernelCall.Answer Returned}
    (hrun : ((auditedWorld F site).machine Returned).run
      (backendPool threadKey showEtag threadId op) ls = some p) :
    (freeProtocol F.toFormat site op key).Sound (fun t r m => OpPost op t Audited.init r m) p := by
  have h0 : (freeProtocol F.toFormat site op key).Sound (fun t r m => OpPost op t Audited.init r m)
      (backendPool threadKey showEtag threadId op) :=
    ⟨init_consistent, fun t => meets_program (coherent_backend htag) htag hkey showEtag _⟩
  exact h0.run (Machine.along_of_forall _ (fun _ _ _ _ _ => trivial) _ ls) hrun

/-- In every reachable state the object is the fold of the committed calls, in the order of their
puts; the calls that returned are committed exactly as they say; later states only extend the
commits and the steps; and a log returned by `get` was held by the object while the call ran. -/
theorem threadLog_linearizable (htag : Function.Injective F.tag)
    (hkey : threadKey threadId = .ok key) {ls ls' : List (τ × Option CoreError)}
    {p p' : Pool τ (Audited τ B E) (KernelCall B E) KernelCall.Answer Returned}
    (hrun : ((auditedWorld F site).machine Returned).run
      (backendPool threadKey showEtag threadId op) ls = some p)
    (hrun' : ((auditedWorld F site).machine Returned).run p ls' = some p') :
    Linearized F op key p ∧ Linearized F op key p' ∧
    p.shared.2.commits <+: p'.shared.2.commits ∧
    (replay op p.shared.2.commits).steps <+: (replay op p'.shared.2.commits).steps ∧
    ∀ t log, p.task t = (op t).program (ThreadStore.over backend threadKey) showEtag threadId →
      p'.task t = .ret (.log (.ok log)) →
      ∃ n, 0 < n ∧ p.shared.2.commits.length ≤ n ∧ n ≤ p'.shared.2.commits.length ∧
        log.toValue = (replay op (p'.shared.2.commits.take n)).toValue := by
  have hp := backendPool_sound htag hkey hrun
  have hp' := hp.run (Machine.along_of_forall _ (fun _ _ _ _ _ => trivial) _ ls') hrun'
  have hgrown := run_grown F.toFormat site hrun'
  refine ⟨linearized_of_sound hp, linearized_of_sound hp', hgrown, ?_, ?_⟩
  · rw [hp.1.effective.replay_steps, hp'.1.effective.replay_steps]
    obtain ⟨more, hmore⟩ := hgrown
    rw [← hmore, List.flatMap_append]
    exact List.prefix_append _ _
  · intro t log hstart hret
    -- The contract of the reader is taken from the state it starts in.
    have hfresh : (freeProtocol F.toFormat site op key).Sound
        (fun u r m => u = t → OpPost op t p.shared r m) p := by
      refine ⟨hp.1, fun u => ?_⟩
      by_cases hu : u = t
      · subst hu
        rw [hstart]
        exact (meets_program (coherent_backend htag) htag hkey showEtag p.shared).mono
          fun r m _ h _ => h
      · exact (hp.2 u).mono fun r m _ _ hut => absurd hut hu
    have hdone := hfresh.run (Machine.along_of_forall _ (fun _ _ _ _ _ => trivial) _ ls') hrun'
    obtain ⟨j, hj, hx⟩ := ((hdone.returned hret) rfl).read log rfl
    obtain ⟨hlt, hdoc⟩ := documents_getElem?_eq hx
    rw [held, documents_length] at hj
    exact ⟨j + 1, by omega, hj, hlt, hdoc⟩

/-! A pool of two appends in two processes, for runs on concrete documents. -/

/-- `n` unrefused steps of one task. -/
def turns (t : τ) (n : Nat) : List (τ × Option CoreError) := List.replicate n (t, none)

def twoAppends (first : Bool) : ThreadOp :=
  .append (message (if first then "one" else "two"))

def twoProcesses (first : Bool) : Site := if first then ⟨1, 1⟩ else ⟨2, 2⟩

/-- The second append reads its HEAD before the first one writes, and starts over. -/
theorem threadLog_linearizable_twoAppends :
    ∃ p, ((auditedWorld Format.plain twoProcesses).machine Returned).run
      (backendPool .ok (fun _ => "") "thread" twoAppends)
      (turns false 2 ++ turns true 5 ++ turns false 9) = some p ∧
    Linearized Format.plain twoAppends "thread" p := by
  have hrun : (((auditedWorld Format.plain twoProcesses).machine Returned).run
      (backendPool .ok (fun _ => "") "thread" twoAppends)
      (turns false 2 ++ turns true 5 ++ turns false 9)).isSome = true := by
    decide +kernel
  obtain ⟨p, hp⟩ := Option.isSome_iff_exists.mp hrun
  have hnil := Machine.run_nil ((auditedWorld Format.plain twoProcesses).machine Returned) p
  exact ⟨p, hp, (threadLog_linearizable Format.plain_tag_injective rfl hp hnil).1⟩

end Backend
end ReactRuntime.Session
