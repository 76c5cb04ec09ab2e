import ReactRuntime.Storage.Adapter

/-!
# Clients of one store

Any number of parties make their calls on one store of objects. The store may refuse a call, or
perform it and lose the answer. What a party can rely on is stated by promises of the others.
-/
namespace ReactRuntime.Storage
open Library Serde ReactRuntime.Core

variable {B E : Type}

/-- How one call goes: it is answered, refused without any effect, or performed without an
answer. -/
inductive Delivery where
  | answered
  | refused (e : CoreError)
  | lost (e : CoreError)

/-- The key whose object a call may replace or remove. -/
def StorageCall.target? : StorageCall B E → Option String
  | .putJson key _ | .putJsonIfEtagMatches key _ _ | .putBytes key _ _ | .deleteObject key =>
    some key
  | .getJson _ | .getBytes _ | .headEtag _ | .listPrefix _ => none

/-- A storage that makes each call as it is. -/
def direct : StorageAdapter (StorageCall B E) StorageCall.Answer B E := fun c => Program.perform c

section World
variable [DecidableEq E] (F : Format B E)

def deliver (s : Objects B) (c : StorageCall B E) : Delivery → Objects B × c.Answer
  | .answered => F.serve s c
  | .refused e => (s, .error e)
  | .lost e => ((F.serve s c).1, .error e)

def objectWorld (τ : Type) :
    World τ Delivery (Objects B) (StorageCall B E) StorageCall.Answer where
  exec _ d c s := some (deliver F s c d)

variable {F} {s s' : Objects B} {c : StorageCall B E}

theorem serve_of_target_eq_none (hc : c.target? = none) : (F.serve s c).1 = s := by
  cases c <;> first | rfl | exact nomatch hc

/-- A call leaves every other object as it is. -/
theorem get_serve_of_ne {key : String} (hkey : c.target? ≠ some key) :
    (F.serve s c).1.get key = s.get key := by
  cases c with
  | putJson k v =>
    have hne : key ≠ k := fun h => hkey (congrArg some h.symm)
    simp [Format.serve, hne]
  | putJsonIfEtagMatches k v expected =>
    have hne : key ≠ k := fun h => hkey (congrArg some h.symm)
    rw [Format.serve]
    split_ifs <;> simp [hne]
  | putBytes k bytes contentType =>
    have hne : key ≠ k := fun h => hkey (congrArg some h.symm)
    simp [Format.serve, hne]
  | deleteObject k =>
    have hne : key ≠ k := fun h => hkey (congrArg some h.symm)
    simp [Format.serve, hne]
  | getJson k => rfl
  | getBytes k => rfl
  | headEtag k => rfl
  | listPrefix pre => rfl

/-- What a call can do: nothing, or its effect with or without its answer. -/
theorem deliver_cases {d : Delivery} {a : c.Answer} (h : deliver F s c d = (s', a)) :
    (s' = s ∧ ∃ e, a = .error e) ∨
      (s' = (F.serve s c).1 ∧ ∀ x, a = .ok x → (F.serve s c).2 = .ok x) := by
  cases d with
  | answered => exact .inr ⟨congrArg Prod.fst h.symm, fun x hx => (congrArg Prod.snd h).trans hx⟩
  | refused e => exact .inl ⟨congrArg Prod.fst h.symm, e, congrArg Prod.snd h.symm⟩
  | lost e =>
    refine .inr ⟨congrArg Prod.fst h.symm, fun x hx => ?_⟩
    have he : Except.error e = a := congrArg Prod.snd h
    rw [← he] at hx
    cases hx

end World

section Rules
variable {τ : Type} [DecidableEq E] {F : Format B E} {P : Promises (objectWorld F τ)}
  {retired : τ → Prop} {t : τ} {s : Objects B}

/-- A call keeps what the party knows, whether or not its answer arrives, and every attempt is made
in a state where that is known. -/
theorem respects_call {c : StorageCall B E} {I : Objects B → Prop}
    {Q : c.Result → Objects B → Prop} (hrefl : ∀ m, P.guarantee t m m)
    (hI : ∀ a b, P.Rely retired t a b → P.inv b → I a → I b)
    (hQ : ∀ x a b, P.Rely retired t a b → P.inv b → Q x a → Q x b)
    (hserve : ∀ m, P.inv m → I m → P.inv (F.serve m c).1 ∧ P.guarantee t m (F.serve m c).1 ∧
      I (F.serve m c).1 ∧ ∀ x, (F.serve m c).2 = .ok x → Q x (F.serve m c).1) (hs : I s) :
    P.Respects retired t (fun r m => I m ∧ ∀ x, r = .ok x → Q x m)
      (retryStorageCall direct c) s := by
  refine respects_retryClassified (I := I) ?_ ?_ ?_ SAFE_STORAGE_RETRY_DELAYS_MS hs
  · intro m₀ hm₀
    refine Promises.Respects.perform fun m hm hi d m' a he => ?_
    have hknown : I m := hI m₀ m hm hi hm₀
    obtain ⟨hinv, hg, hnext, hpost⟩ := hserve m hi hknown
    rcases deliver_cases (Option.some.inj he) with ⟨rfl, e, rfl⟩ | ⟨rfl, hanswer⟩
    · refine ⟨hi, hrefl m', fun m'' hm' hi' => ⟨hI m' m'' hm' hi' hknown, fun x hx => ?_⟩⟩
      cases hx
    · refine ⟨hinv, hg, fun m'' hm' hi' => ⟨hI _ m'' hm' hi' hnext, fun x hx => ?_⟩⟩
      exact hQ x _ m'' hm' hi' (hpost x (hanswer x hx))
  · exact fun e m _ hm => hm.1
  · exact fun r a b hab hi ha => ⟨hI a b hab hi ha.1, fun x hx => hQ x a b hab hi (ha.2 x hx)⟩

/-- A call that only reads answers what was so at some moment since it began. -/
theorem respects_read {c : StorageCall B E} (hc : c.target? = none)
    (hrefl : ∀ m, P.guarantee t m m) (s : Objects B) :
    P.Respects retired t (fun r m => P.Rely retired t s m ∧ ∀ x, r = .ok x →
        ∃ o, P.Rely retired t s o ∧ P.Rely retired t o m ∧ P.inv o ∧ (F.serve o c).2 = .ok x)
      (retryStorageCall direct c) s := by
  refine respects_call (I := P.Rely retired t s) hrefl (fun a b hab _ ha => ha.trans hab) ?_ ?_ .refl
  · rintro x a b hab - ⟨o, hso, hoa, hi, hx⟩
    exact ⟨o, hso, hoa.trans hab, hi, hx⟩
  · intro m hi hm
    rw [serve_of_target_eq_none hc]
    exact ⟨hi, hrefl m, hm, fun x hx => ⟨m, hm, .refl, hi, hx⟩⟩

/-- A program whose calls each keep the promise keeps it. -/
theorem respects_of_makes {α : Type} {p : Program (StorageCall B E) StorageCall.Answer α}
    {allowed : StorageCall B E → Prop} (hp : p.Makes allowed) (hrefl : ∀ m, P.guarantee t m m)
    (hserve : ∀ c, allowed c → ∀ m, P.inv m →
      P.inv (F.serve m c).1 ∧ P.guarantee t m (F.serve m c).1) (s : Objects B) :
    P.Respects retired t (fun _ _ => True) p s := by
  refine Promises.Respects.of_makes hp (fun c hc m d m' a hi he => ?_) s
  rcases deliver_cases (Option.some.inj he) with ⟨rfl, -⟩ | ⟨rfl, -⟩
  · exact ⟨hi, hrefl m'⟩
  · exact hserve c hc m hi

end Rules
end ReactRuntime.Storage
