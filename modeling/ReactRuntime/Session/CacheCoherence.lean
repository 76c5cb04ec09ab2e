import ReactRuntime.Session.Kernel

/-!
# The caching adapter at rest

One caching adapter is the only client of its backend. A call that has its answer
from the backend still has to insert an entry for the key. A late insertion can
hide what another call wrote in between, for good.
-/
namespace ReactRuntime.Session
open Library Serde ReactRuntime.Core Storage

variable {τ B E : Type}

/-- The bytes of the cache stand for the bytes of the backend: they are the same, or the two ways to
write one document. -/
def SameDocument (F : Format B E) (bytes stored : B) : Prop :=
  bytes = stored ∨ ∃ v, bytes = F.compact v ∧ stored = F.render v

/-- Serving the entry is like asking the backend. An entry with an etag is only served while the
backend reports that etag. -/
def EntryAgrees (F : Format B E) : CacheEntry B E → Option B → Prop
  | .missing, object => object = none
  | .bytes bytes none, object => ∃ stored, object = some stored ∧ SameDocument F bytes stored
  | .bytes bytes (some etag), object =>
    ∀ stored, object = some stored → F.etagOf stored = etag → SameDocument F bytes stored

/-- The key for which an answer obliges the adapter to insert an entry. -/
def insertionDue : (c : StorageCall B E) → c.Answer → Option String
  | .getBytes key, .ok _ => some key
  | .getBytes key, .error e => if isStorageNotFoundError e then some key else none
  | .putBytes key _ _, .ok _ => some key
  | .putJson key _, .ok _ => some key
  | .deleteObject key, .ok _ => some key
  | .putJsonIfEtagMatches key _ _, .ok (.written _) => some key
  | _, _ => none

/-- The keys for which the tasks still have to insert an entry. -/
abbrev Insertions (τ : Type) := τ → Option String

def Insertions.note [DecidableEq τ] (t : τ) : (c : KernelCall B E) → c.Answer → Kernel B E →
    Insertions τ → Insertions τ
  | .storage c, a, _, g => match insertionDue c a with
    | some key => Function.update g t (some key)
    | none => g
  | .writeEntry _ _, _, _, g => Function.update g t none
  | _, _, _, g => g

theorem Insertions.note_of_ne [DecidableEq τ] {t u : τ} (h : t ≠ u) (c : KernelCall B E)
    (a : c.Answer) (s : Kernel B E) (g : Insertions τ) : note u c a s g t = g t := by
  unfold note
  split
  · cases insertionDue _ _ with
    | none => rfl
    | some key => exact Function.update_of_ne h _ _
  · exact Function.update_of_ne h _ _
  · rfl

/-- The backend may refuse a call without any effect, but it reports a missing object only when
there is none. -/
abbrev Refusal := { e : CoreError // isStorageNotFoundError e = false }

/-- The tasks of one process, with the insertions that are due. -/
def adapterWorld [DecidableEq τ] [DecidableEq E] (F : Format B E) :
    World τ (Option Refusal) (Kernel B E × Insertions τ) (KernelCall B E) KernelCall.Answer :=
  World.instrument ⟨fun _ i c s => s.exec F ⟨0, 0⟩ (i.map Subtype.val) c⟩ Insertions.note

/-- Every key whose insertions are all made is cached as it is stored. -/
def CacheOk (F : Format B E) (s : Kernel B E × Insertions τ) (key : String) : Prop :=
  (∀ entry, s.1.entries 0 key = some entry → EntryAgrees F entry (s.1.objects.get key)) ∨
    ∃ t, s.2 t = some key

/-- No call makes the last insertion that is due for a key with an entry that the object has
outrun. -/
def NoLateInsertion (F : Format B E) (t : τ) : KernelCall B E → Kernel B E × Insertions τ → Prop
  | .writeEntry key entry, s =>
    EntryAgrees F entry (s.1.objects.get key) ∨ ∃ u, u ≠ t ∧ s.2 u = some key
  | _, _ => True

section Protocol
variable [DecidableEq τ] [DecidableEq E] (F : Format B E)

def adapterProtocol : Protocol (adapterWorld (τ := τ) F) where
  inv s := ∀ key, CacheOk F s key
  rely t s s' := s'.2 t = s.2 t
  guard := NoLateInsertion F
  rely_refl _ _ := rfl
  rely_trans _ _ _ _ hab hbc := hbc.trans hab
  frame u i c s s' a h t ht := by
    obtain ⟨-, hg⟩ := World.instrument_exec.mp h
    rw [hg]
    exact Insertions.note_of_ne ht c a s.1 s.2

end Protocol

namespace Coherence
section Steps
variable [DecidableEq τ] [DecidableEq E] {F : Format B E} {t : τ} {s : Kernel B E × Insertions τ}

/-- A call that obliges to no insertion leaves the object alone. -/
theorem serve_get_of_not_due {objects : Objects B} {c : StorageCall B E} {key : String}
    (h : insertionDue c (F.serve objects c).2 ≠ some key) :
    (F.serve objects c).1.get key = objects.get key := by
  cases c with
  | getJson k => rfl
  | getBytes k => rfl
  | headEtag k => rfl
  | listPrefix pre => rfl
  | putJson k v =>
    have hne : key ≠ k := fun he => h (by rw [he]; rfl)
    simp [Format.serve, SortedMap.get_insert, hne]
  | putBytes k bytes contentType =>
    have hne : key ≠ k := fun he => h (by rw [he]; rfl)
    simp [Format.serve, SortedMap.get_insert, hne]
  | deleteObject k =>
    have hne : key ≠ k := fun he => h (by rw [he]; rfl)
    simp [Format.serve, SortedMap.get_erase, hne]
  | putJsonIfEtagMatches k v expected =>
    by_cases hmatch : F.headOf objects k = expected
    · have hne : key ≠ k := by
        intro he
        apply h
        simp [Format.serve, hmatch, insertionDue, he]
      simp [Format.serve, hmatch, SortedMap.get_insert, hne]
    · simp [Format.serve, hmatch]

/-- A call of the backend either leaves an object and the insertions alone, or leaves an insertion
due. -/
theorem cacheOk_storage {c : StorageCall B E} (h : ∀ key, CacheOk F s key) (hs : s.2 t = none)
    (key : String) : CacheOk F
      ({ s.1 with objects := (F.serve s.1.objects c).1 },
        Insertions.note t (.storage c) (F.serve s.1.objects c).2 s.1 s.2) key := by
  by_cases hdue : insertionDue c (F.serve s.1.objects c).2 = some key
  · refine Or.inr ⟨t, ?_⟩
    simp only [Insertions.note, hdue, Function.update_self]
  · rcases h key with hentry | ⟨u, hu⟩
    · refine Or.inl fun entry he => ?_
      rw [serve_get_of_not_due hdue]
      exact hentry entry he
    · have hne : u ≠ t := by
        rintro rfl
        rw [hs] at hu
        cases hu
      exact Or.inr ⟨u, (Insertions.note_of_ne hne (.storage c) _ s.1 s.2).trans hu⟩

theorem meets_ret {α : Type} {Q : α → Option String → Prop} {a : α} (h : Q a (s.2 t)) :
    (adapterProtocol F).Meets t (fun a m => Q a (m.2 t)) (.ret a) s := by
  intro m hm _
  rw [hm]
  exact h

omit [DecidableEq E] in
theorem insertionDue_refusal (c : StorageCall B E) (e : Refusal) :
    insertionDue c (.error e.1) = none := by
  cases c <;> simp [insertionDue, e.2]

/-- A call of the backend is followed by the insertion that its answer obliges to. -/
theorem meets_storage (c : StorageCall B E) (hs : s.2 t = none) :
    (adapterProtocol F).Meets t (fun a m => m.2 t = insertionDue c a)
      (KernelCall.storage c).issue s := by
  intro m hm hi _ i m' a he
  obtain ⟨hexec, hnote⟩ := World.instrument_exec.mp he
  have hmt : m.2 t = none := hm.trans hs
  have hdue : m'.2 t = insertionDue c a := by
    rw [hnote]
    simp only [Insertions.note]
    cases insertionDue c a with
    | none => exact hmt
    | some key => exact Function.update_self t (some key) m.2
  refine ⟨?_, meets_ret (Q := fun a k => k = insertionDue c a) hdue⟩
  rcases Kernel.exec_storage hexec with ⟨hkernel, e, hrefused, rfl⟩ | ⟨-, hkernel, rfl⟩
  · obtain ⟨refusal, -, rfl⟩ := Option.map_eq_some_iff.mp hrefused
    simp only [Insertions.note, insertionDue_refusal] at hnote
    rw [show m' = m from Prod.ext hkernel hnote]
    exact hi
  · intro key
    have hok := cacheOk_storage (c := c) hi hmt key
    rw [show m' = (_, _) from Prod.ext hkernel hnote]
    exact hok

/-- Reading the entry map changes nothing. -/
theorem meets_readEntry (key : String) (hs : s.2 t = none) :
    (adapterProtocol F).Meets t (fun _ m => m.2 t = none) (KernelCall.readEntry key).issue s := by
  intro m hm hi _ i m' a he
  obtain ⟨hexec, hnote⟩ := World.instrument_exec.mp he
  obtain ⟨hkernel, -⟩ := Kernel.exec_local rfl hexec
  rw [show m' = m from Prod.ext hkernel hnote]
  exact ⟨hi, meets_ret (Q := fun _ k => k = none) (hm.trans hs)⟩

theorem meets_invalidateEntry (key : String) (hs : s.2 t = none) :
    (adapterProtocol F).Meets t (fun _ m => m.2 t = none)
      (KernelCall.invalidateEntry key).issue s := by
  intro m hm hi _ i m' a he
  obtain ⟨hexec, hnote⟩ := World.instrument_exec.mp he
  obtain ⟨hkernel, -⟩ := Kernel.exec_local rfl hexec
  have hm' : m' = ({ m.1 with entries := updateAt m.1.entries 0 key none }, m.2) :=
    Prod.ext hkernel hnote
  subst hm'
  refine ⟨fun k => ?_, meets_ret (Q := fun _ k => k = none) (hm.trans hs)⟩
  rcases hi k with hentry | hdue
  · refine Or.inl fun entry hget => hentry entry ?_
    change updateAt m.1.entries 0 key none 0 k = some entry at hget
    exact (of_updateAt_eq_some hget).resolve_left fun hnew => nomatch hnew.2
  · exact Or.inr hdue

/-- The insertion that is due is made; unless another one is due for the key, its entry agrees with
the object. -/
theorem meets_writeEntry {key : String} {entry : CacheEntry B E} (hs : s.2 t = some key) :
    (adapterProtocol F).Meets t (fun _ m => m.2 t = none)
      (KernelCall.writeEntry key entry).issue s := by
  intro m hm hi hguard i m' a he
  obtain ⟨hexec, hnote⟩ := World.instrument_exec.mp he
  obtain ⟨hkernel, -⟩ := Kernel.exec_local rfl hexec
  have hm' : m' = ({ m.1 with entries := updateAt m.1.entries 0 key (some entry) },
      Function.update m.2 t none) := Prod.ext hkernel hnote
  subst hm'
  refine ⟨fun k => ?_, meets_ret (Q := fun _ k => k = none) (Function.update_self t none m.2)⟩
  by_cases hk : k = key
  · subst hk
    rcases hguard with hagrees | ⟨u, hne, hu⟩
    · refine Or.inl fun e hget => ?_
      have hupdate : updateAt m.1.entries 0 k (some entry) 0 k = some e := hget
      rw [updateAt_apply, if_pos ⟨rfl, rfl⟩, Option.some.injEq] at hupdate
      exact hupdate ▸ hagrees
    · exact Or.inr ⟨u, (Function.update_of_ne hne none m.2).trans hu⟩
  · rcases hi k with hentry | ⟨u, hu⟩
    · refine Or.inl fun e hget => hentry e ?_
      change updateAt m.1.entries 0 key (some entry) 0 k = some e at hget
      exact (of_updateAt_eq_some hget).resolve_left fun hnew => hk hnew.1
    · have hne : u ≠ t := by
        rintro rfl
        have hut : m.2 u = some key := hm.trans hs
        rw [hut, Option.some.injEq] at hu
        exact hk hu.symm
      exact Or.inr ⟨u, (Function.update_of_ne hne none m.2).trans hu⟩

theorem meets_done {α : Type} (a : α) (hs : s.2 t = none) :
    (adapterProtocol F).Meets t (fun _ m => m.2 t = none) (.ret a) s :=
  meets_ret (Q := fun _ k => k = none) hs

/-- An insertion that is due, and the value to return. -/
theorem meets_insertAndReturn {α : Type} {key : String} {entry : CacheEntry B E} (a : α)
    (hs : s.2 t = some key) : (adapterProtocol F).Meets t (fun _ m => m.2 t = none)
      ((KernelCall.writeEntry key entry).issue.bind fun _ => .ret a) s := by
  apply Protocol.Meets.bind
  exact (meets_writeEntry hs).mono fun _ m _ hm => meets_done a hm

theorem meets_fetchBytes (key : String) (hs : s.2 t = none) :
    (adapterProtocol F).Meets t (fun _ m => m.2 t = none)
      ((cachingAdapter F).fetchBytes key) s := by
  apply Protocol.Meets.andThen (meets_storage (.headEtag key) hs)
  · intro currentEtag m _ hm
    apply Protocol.Meets.bind
    apply (meets_storage (.getBytes key) hm).mono
    intro r d _ hd
    cases r with
    | ok bytes => exact meets_insertAndReturn _ hd
    | error err =>
      simp only [insertionDue] at hd
      simp only
      split_ifs at hd ⊢
      · exact meets_insertAndReturn _ hd
      · exact meets_done _ hd
  · exact fun e m _ hm => meets_done _ hm

theorem meets_getBytes (key : String) (hs : s.2 t = none) :
    (adapterProtocol F).Meets t (fun _ m => m.2 t = none) ((cachingAdapter F).getBytes key) s := by
  apply Protocol.Meets.bind
  apply (meets_readEntry key hs).mono
  intro entry m _ hm
  split
  · apply Protocol.Meets.andThen (meets_storage (.headEtag key) hm)
    · intro head d _ hd
      split_ifs
      · exact meets_done _ hd
      · exact meets_fetchBytes key hd
    · exact fun e d _ hd => meets_done _ hd
  · exact meets_done _ hm
  · exact meets_done _ hm
  · exact meets_fetchBytes key hm

/-- A call of the backend whose answer obliges to one insertion, and that insertion. -/
theorem meets_writeThrough {α : Type} {c : StorageCall B E} {key : String}
    {entry : CacheEntry B E} {a : α} {r : c.Result}
    (hdue : insertionDue c (.ok r) = some key) {m : Kernel B E × Insertions τ}
    (hm : m.2 t = insertionDue c (.ok r)) : (adapterProtocol F).Meets t (fun _ m => m.2 t = none)
      ((KernelCall.writeEntry key entry).issue.bind fun _ => .ret a) m :=
  meets_insertAndReturn a (hm.trans hdue)

/-- Every method makes each insertion that it owes. -/
theorem meets_adapter (c : StorageCall B E) (hs : s.2 t = none) :
    (adapterProtocol F).Meets t (fun _ m => m.2 t = none) (cached F c) s := by
  cases c with
  | getJson key =>
    apply Protocol.Meets.andThen (meets_getBytes key hs)
    · exact fun bytes m _ hm => meets_done _ hm
    · exact fun e m _ hm => meets_done _ hm
  | getBytes key => exact meets_getBytes key hs
  | putJson key value =>
    apply Protocol.Meets.andThen (meets_storage (.putBytes key (F.compact value) _) hs)
    · exact fun _ m _ hm => meets_writeThrough rfl hm
    · exact fun e m _ hm => meets_done _ hm
  | putBytes key bytes contentType =>
    apply Protocol.Meets.andThen (meets_storage (.putBytes key bytes contentType) hs)
    · exact fun _ m _ hm => meets_writeThrough rfl hm
    · exact fun e m _ hm => meets_done _ hm
  | deleteObject key =>
    apply Protocol.Meets.andThen (meets_storage (.deleteObject key) hs)
    · exact fun _ m _ hm => meets_writeThrough rfl hm
    · exact fun e m _ hm => meets_done _ hm
  | putJsonIfEtagMatches key value expected =>
    apply Protocol.Meets.andThen (meets_storage (.putJsonIfEtagMatches key value expected) hs)
    · intro status m _ hm
      cases status with
      | written etag => exact meets_writeThrough rfl hm
      | conflict currentEtag =>
        apply Protocol.Meets.bind
        exact (meets_invalidateEntry key hm).mono fun _ d _ hd => meets_done _ hd
    · exact fun e m _ hm => meets_done _ hm
  | headEtag key =>
    apply Protocol.Meets.bind
    apply (meets_readEntry key hs).mono
    intro entry m _ hm
    split
    · exact meets_done _ hm
    · exact meets_storage (.headEtag key) hm
  | listPrefix pre => exact meets_storage (.listPrefix pre) hs

end Steps
end Coherence

/-- Every entry agrees with its object. -/
def Rested (F : Format B E) (s : Kernel B E) : Prop :=
  ∀ key entry, s.entries 0 key = some entry → EntryAgrees F entry (s.objects.get key)

/-- The calls that only read. -/
def IsRead : StorageCall B E → Bool
  | .getJson _ | .getBytes _ | .headEtag _ => true
  | _ => false

/-- The answer of the cache is the answer of the backend: for bytes up to the way in which one
document is written, and for a document that cannot be parsed up to the wording of the error. -/
def SameAnswer (F : Format B E) : (c : StorageCall B E) → c.Answer → c.Answer → Prop
  | .getBytes _, .ok bytes, .ok stored => SameDocument F bytes stored
  | .getJson _, .error e, .error e' =>
    e = e' ∨ ∃ msg msg', e = .storage (.other msg) ∧ e' = .storage (.other msg')
  | _, a, a' => a = a'

section Rest
variable [DecidableEq E] (F : Format B E) {s : Kernel B E}

/-- A call of the adapter that runs while no other call is in flight. -/
def evalAlone (c : StorageCall B E) (s : Kernel B E) : Kernel B E × c.Answer :=
  (cached F c).eval (fun c s => s.perform F ⟨0, 0⟩ c) s

/-- Calls that run one after the other. -/
def evalInOrder : List (StorageCall B E) → Kernel B E → Kernel B E
  | [], s => s
  | c :: cs, s => evalInOrder cs (evalAlone F c s).1

variable {F}

omit [DecidableEq E] in
theorem Rested.insert (h : Rested F s) {key : String} {entry : CacheEntry B E}
    (hentry : EntryAgrees F entry (s.objects.get key)) :
    Rested F { s with entries := updateAt s.entries 0 key (some entry) } := by
  intro k e he
  change updateAt s.entries 0 key (some entry) 0 k = some e at he
  rcases of_updateAt_eq_some he with ⟨rfl, hnew⟩ | hold
  · cases hnew
    exact hentry
  · exact h k e hold

/-- What a read comes to: the answer of the backend, over the same objects. -/
structure ReadEnd (F : Format B E) (s : Kernel B E) (c : StorageCall B E)
    (out : Kernel B E × c.Answer) : Prop where
  answer : SameAnswer F c out.2 (F.serve s.objects c).2
  rested : Rested F out.1
  objects : out.1.objects = s.objects

/-- The calls of the adapter, run alone. -/
abbrev alone (F : Format B E) : (c : KernelCall B E) → Kernel B E → Kernel B E × c.Answer :=
  fun c s => s.perform F ⟨0, 0⟩ c

theorem readEnd_fetchBytes (h : Rested F s) (key : String) :
    ReadEnd F s (.getBytes key) (((cachingAdapter F).fetchBytes key).eval (alone F) s) := by
  cases hobject : s.objects.get key with
  | none =>
    have heval : ((cachingAdapter F).fetchBytes key).eval (alone F) s =
        ({ s with entries := updateAt s.entries 0 key (some .missing) },
          .error (.storage (.notFound key))) := by
      simp [CachingStorageAdapter.fetchBytes, cachingAdapter, backend, KernelCall.issue,
        Program.andThen, Kernel.perform, Format.serve, hobject, isStorageNotFoundError]
    rw [heval]
    exact ⟨by simp [Format.serve, hobject, SameAnswer], h.insert hobject, rfl⟩
  | some bytes =>
    let entry : CacheEntry B E := .bytes bytes (F.headOf s.objects key)
    have heval : ((cachingAdapter F).fetchBytes key).eval (alone F) s =
        ({ s with entries := updateAt s.entries 0 key (some entry) }, .ok bytes) := by
      simp [CachingStorageAdapter.fetchBytes, CachingStorageAdapter.rememberBytes, cachingAdapter,
        backend, KernelCall.issue, Program.andThen, Kernel.perform, Format.serve, hobject, entry]
    rw [heval]
    refine ⟨?_, h.insert ?_, rfl⟩
    · simp only [Format.serve, hobject]
      exact Or.inl rfl
    · simp only [entry, Format.headOf, hobject]
      intro stored hstored _
      exact Or.inl (Option.some.inj hstored)

theorem readEnd_getBytes (h : Rested F s) (key : String) :
    ReadEnd F s (.getBytes key) (evalAlone F (.getBytes key) s) := by
  have hfetch := readEnd_fetchBytes h key
  have hread : ((cachingAdapter F).entries.readEntry key).eval (alone F) s = (s, s.entries 0 key) :=
    rfl
  have hhead : ((cachingAdapter F).inner (.headEtag key)).eval (alone F) s =
      (s, .ok (F.headOf s.objects key)) := rfl
  change ReadEnd F s (.getBytes key) (((cachingAdapter F).getBytes key).eval (alone F) s)
  rw [CachingStorageAdapter.getBytes, Program.bind_eq, Program.eval_bind_of hread]
  rcases hentry : s.entries 0 key with _ | ⟨bytes, _ | etag⟩ | _
  · exact hfetch
  · obtain ⟨stored, hobject, hdoc⟩ := h key _ hentry
    refine ⟨?_, h, rfl⟩
    simp only [Format.serve, hobject]
    exact hdoc
  · simp only [Program.eval_andThen_ok hhead]
    split_ifs with hcurrent
    · obtain ⟨stored, hobject, hetag⟩ := Option.map_eq_some_iff.mp hcurrent
      refine ⟨?_, h, rfl⟩
      simp only [Format.serve, hobject]
      exact h key _ hentry stored hobject hetag
    · exact hfetch
  · have hobject : s.objects.get key = none := h key _ hentry
    refine ⟨?_, h, rfl⟩
    simp [Format.serve, hobject, SameAnswer, CachingStorageAdapter.cachedMissingError]

omit [DecidableEq E] in
/-- Both ways to write a document parse to the same value, or neither parses. -/
theorem sameAnswer_parseJson {bytes stored : B} (key : String)
    (h : SameDocument F bytes stored) :
    SameAnswer F (.getJson key) (F.parseJson key bytes) (F.parseJson key stored) := by
  rcases h with rfl | ⟨v, rfl, rfl⟩
  · cases F.parseJson key bytes with
    | ok v => rfl
    | error e => exact Or.inl rfl
  · by_cases hv : v.depth ≤ RECURSION_LIMIT
    · rw [F.parseJson_eq_ok.mpr (F.parse_compact v hv), F.parseJson_eq_ok.mpr (F.parse_render v hv)]
      rfl
    · obtain ⟨e, he⟩ := F.parse_compact_deep v (not_le.mp hv)
      obtain ⟨e', he'⟩ := F.parse_render_deep v (not_le.mp hv)
      rw [Format.parseJson, Format.parseJson, he, he']
      exact Or.inr ⟨_, _, rfl, rfl⟩

theorem readEnd_getJson (h : Rested F s) (key : String) :
    ReadEnd F s (.getJson key) (evalAlone F (.getJson key) s) := by
  have hbytes := readEnd_getBytes h key
  have heval : evalAlone F (.getJson key) s = ((evalAlone F (.getBytes key) s).1,
      (evalAlone F (.getBytes key) s).2.bind fun bytes => F.parseJson key bytes) := by
    change (((cachingAdapter F).getBytes key).andThen fun bytes => .ret _).eval (alone F) s = _
    change _ = ((((cachingAdapter F).getBytes key).eval (alone F) s).1,
      (((cachingAdapter F).getBytes key).eval (alone F) s).2.bind _)
    rw [Program.andThen, Program.eval_bind]
    cases (((cachingAdapter F).getBytes key).eval (alone F) s).2 <;> rfl
  rw [heval]
  refine ⟨?_, hbytes.rested, hbytes.objects⟩
  have hanswer := hbytes.answer
  cases hobject : s.objects.get key with
  | none =>
    simp only [Format.serve, hobject] at hanswer ⊢
    cases hr : (evalAlone F (.getBytes key) s).2 with
    | ok bytes =>
      rw [hr] at hanswer
      cases hanswer
    | error e =>
      rw [hr] at hanswer
      exact Or.inl (Except.error.inj hanswer)
  | some stored =>
    simp only [Format.serve, hobject] at hanswer ⊢
    cases hr : (evalAlone F (.getBytes key) s).2 with
    | ok bytes =>
      rw [hr] at hanswer
      exact sameAnswer_parseJson key hanswer
    | error e =>
      rw [hr] at hanswer
      cases hanswer

theorem readEnd_headEtag (h : Rested F s) (key : String) :
    ReadEnd F s (.headEtag key) (evalAlone F (.headEtag key) s) := by
  have hread : ((cachingAdapter F).entries.readEntry key).eval (alone F) s = (s, s.entries 0 key) :=
    rfl
  change ReadEnd F s (.headEtag key) (((cachingAdapter F).headEtag key).eval (alone F) s)
  rw [CachingStorageAdapter.headEtag, Program.bind_eq, Program.eval_bind_of hread]
  rcases hentry : s.entries 0 key with _ | ⟨bytes, etag⟩ | _
  · exact ⟨rfl, h, rfl⟩
  · exact ⟨rfl, h, rfl⟩
  · have hobject : s.objects.get key = none := h key _ hentry
    refine ⟨?_, h, rfl⟩
    simp [Format.serve, Format.headOf, hobject, SameAnswer]

theorem readEnd_evalAlone (h : Rested F s) {c : StorageCall B E} (hc : IsRead c = true) :
    ReadEnd F s c (evalAlone F c s) := by
  cases c with
  | getJson key => exact readEnd_getJson h key
  | getBytes key => exact readEnd_getBytes h key
  | headEtag key => exact readEnd_headEtag h key
  | _ => cases hc

/-- Reads in order leave the cache at rest. -/
theorem rested_evalInOrder (h : Rested F s) {cs : List (StorageCall B E)}
    (hcs : ∀ c ∈ cs, IsRead c = true) : Rested F (evalInOrder F cs s) ∧
      (evalInOrder F cs s).objects = s.objects := by
  induction cs generalizing s with
  | nil => exact ⟨h, rfl⟩
  | cons c cs ih =>
    have hc := readEnd_evalAlone h (hcs c List.mem_cons_self)
    obtain ⟨hrest, hobjects⟩ := ih hc.rested fun d hd => hcs d (List.mem_cons_of_mem c hd)
    exact ⟨hrest, hobjects.trans hc.objects⟩

end Rest

section Runs
variable [DecidableEq τ] [DecidableEq E] {F : Format B E} (calls : τ → StorageCall B E)
  (objects : Objects B)

/-- All calls at their start, over an adapter that has cached nothing. -/
def adapterPool (F : Format B E) :
    Pool τ (Kernel B E × Insertions τ) (KernelCall B E) KernelCall.Answer Unit where
  shared := ({ Kernel.init with objects := objects }, fun _ => none)
  task t := (cached F (calls t)).bind fun _ => .ret ()

/-- After every run without a late insertion in which all calls returned, and after any reads that
follow, the adapter answers a read as the backend does. -/
theorem adapter_coherent_atRest {ls : List (τ × Option Refusal)}
    {p : Pool τ (Kernel B E × Insertions τ) (KernelCall B E) KernelCall.Answer Unit}
    (hguard : ((adapterWorld F).machine Unit).Along (adapterProtocol F).Allows
      (adapterPool calls objects F) ls)
    (hrun : ((adapterWorld F).machine Unit).run (adapterPool calls objects F) ls = some p)
    (hrest : ∀ t, p.task t = .ret ()) (further : List (StorageCall B E))
    (hfurther : ∀ c ∈ further, IsRead c = true) (c : StorageCall B E) (hc : IsRead c = true) :
    SameAnswer F c (evalAlone F c (evalInOrder F further p.shared.1)).2
      (F.serve p.shared.1.objects c).2 := by
  have h0 : (adapterProtocol F).Sound (fun t (_ : Unit) m => m.2 t = none)
      (adapterPool calls objects F) := by
    refine ⟨fun key => Or.inl fun entry he => (nomatch he), fun t => ?_⟩
    apply Protocol.Meets.bind
    exact (Coherence.meets_adapter (calls t) rfl).mono fun _ m _ hm => Coherence.meets_done () hm
  have hp := h0.run hguard hrun
  have hrested : Rested F p.shared.1 := by
    intro key entry hentry
    rcases hp.1 key with hagrees | ⟨t, ht⟩
    · exact hagrees entry hentry
    · rw [hp.returned (hrest t)] at ht
      cases ht
  obtain ⟨hlater, hobjects⟩ := rested_evalInOrder hrested hfurther
  rw [← hobjects]
  exact (readEnd_evalAlone hlater hc).answer

end Runs

theorem sameDocument_plain {bytes stored : Json} :
    SameDocument Format.plain bytes stored ↔ bytes = stored := by
  constructor
  · rintro (rfl | ⟨v, rfl, rfl⟩)
    · rfl
    · rfl
  · exact Or.inl

instance decidableEntryAgrees : (entry : CacheEntry Json Json) → (object : Option Json) →
    Decidable (EntryAgrees Format.plain entry object)
  | .missing, object => inferInstanceAs (Decidable (object = none))
  | .bytes _ none, none => isFalse fun h => nomatch h
  | .bytes bytes none, some stored => decidable_of_iff (bytes = stored)
      ⟨fun h => ⟨stored, rfl, Or.inl h⟩, fun ⟨_, hs, h⟩ =>
        (sameDocument_plain.mp h).trans (Option.some.inj hs).symm⟩
  | .bytes _ (some _), none => isTrue fun _ h => nomatch h
  | .bytes bytes (some etag), some stored => decidable_of_iff (stored = etag → bytes = stored)
      ⟨fun h _ hs he => Or.inl (Option.some.inj hs ▸ h (Option.some.inj hs ▸ he)),
        fun h he => sameDocument_plain.mp (h stored rfl he)⟩

instance decidableLateInsertion (t : Bool) : (c : KernelCall Json Json) →
    (s : Kernel Json Json × Insertions Bool) → Decidable (NoLateInsertion Format.plain t c s)
  | .writeEntry key entry, s => inferInstanceAs (Decidable
      (EntryAgrees Format.plain entry (s.1.objects.get key) ∨ ∃ u, u ≠ t ∧ s.2 u = some key))
  | .storage _, _ | .readEntry _, _ | .invalidateEntry _, _ | .cacheGet _, _ | .cacheInsert _ _, _
  | .cacheRemove _, _ | .lock _, _ | .unlock _, _ => isTrue trivial

instance (t : Bool) (c : KernelCall Json Json) (s : Kernel Json Json × Insertions Bool) :
    Decidable ((adapterProtocol Format.plain).guard t c s) :=
  inferInstanceAs (Decidable (NoLateInsertion Format.plain t c s))

/-- Two tasks put different bytes under one key. -/
def twoPuts (second : Bool) : StorageCall Json Json :=
  .putBytes "key" (.bool second) "text/plain"

def twoPutsPool : Pool Bool (Kernel Json Json × Insertions Bool) (KernelCall Json Json)
    KernelCall.Answer Unit :=
  adapterPool twoPuts SortedMap.empty Format.plain

def putTurns (ts : List Bool) : List (Bool × Option Refusal) := ts.map fun t => (t, none)

/-- Both tasks write before either updates the cache, and update it in the same order. -/
theorem adapter_coherent_inOrder :
    ∃ p, ((adapterWorld Format.plain).machine Unit).run twoPutsPool
      (putTurns [false, true, false, true]) = some p ∧
    SameAnswer Format.plain (.getBytes "key")
      (evalAlone Format.plain (.getBytes "key") p.shared.1).2
      (Format.plain.serve p.shared.1.objects (.getBytes "key")).2 := by
  have hrun : (((adapterWorld Format.plain).machine Unit).run twoPutsPool
      (putTurns [false, true, false, true])).map (fun p => ((p.task false).returned?,
        (p.task true).returned?)) = some (some (), some ()) := by
    decide +kernel
  have hguard : ((adapterWorld Format.plain).machine Unit).Along
      (adapterProtocol Format.plain).Allows twoPutsPool (putTurns [false, true, false, true]) := by
    decide +kernel
  obtain ⟨p, hp, ht⟩ := Option.map_eq_some_iff.mp hrun
  rw [Prod.mk.injEq] at ht
  have hrest : ∀ t, p.task t = .ret () := by
    intro t
    cases t with
    | false => exact Program.returned?_eq_some.mp ht.1
    | true => exact Program.returned?_eq_some.mp ht.2
  exact ⟨p, hp, adapter_coherent_atRest twoPuts SortedMap.empty hguard hp hrest []
    (fun _ hc => nomatch hc) (.getBytes "key") rfl⟩

/-- The first writer updates the cache last: the backend holds the second value, and every later
read of the cache returns the first. -/
theorem adapter_incoherent_lateInsertion :
    ∃ p, ((adapterWorld Format.plain).machine Unit).run twoPutsPool
      (putTurns [false, true, true, false]) = some p ∧ (∀ t, p.task t = .ret ()) ∧
    (evalAlone Format.plain (.getBytes "key") p.shared.1).2 = .ok (.bool false) ∧
    (Format.plain.serve p.shared.1.objects (.getBytes "key")).2 = .ok (.bool true) ∧
    ¬ SameAnswer Format.plain (.getBytes "key")
      (evalAlone Format.plain (.getBytes "key") p.shared.1).2
      (Format.plain.serve p.shared.1.objects (.getBytes "key")).2 := by
  have hrun : (((adapterWorld Format.plain).machine Unit).run twoPutsPool
      (putTurns [false, true, true, false])).map (fun p => ((p.task false).returned?,
        (p.task true).returned?, (evalAlone Format.plain (.getBytes "key") p.shared.1).2,
        (Format.plain.serve p.shared.1.objects (.getBytes "key")).2)) =
      some (some (), some (), .ok (.bool false), .ok (.bool true)) := by
    decide +kernel
  obtain ⟨p, hp, hq⟩ := Option.map_eq_some_iff.mp hrun
  simp only [Prod.mk.injEq] at hq
  obtain ⟨hfalse, htrue, hcached, hstored⟩ := hq
  refine ⟨p, hp, fun t => ?_, hcached, hstored, ?_⟩
  · cases t with
    | false => exact Program.returned?_eq_some.mp hfalse
    | true => exact Program.returned?_eq_some.mp htrue
  · rw [hcached, hstored]
    intro hsame
    have hne : (Json.bool false) ≠ .bool true := by
      decide
    exact hne (sameDocument_plain.mp hsame)

end ReactRuntime.Session
