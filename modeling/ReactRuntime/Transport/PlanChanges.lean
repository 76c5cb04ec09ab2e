import Mathlib.Data.List.Induction
import Mathlib.Data.Multiset.Basic
import ReactRuntime.Library.Sorting
import ReactRuntime.Serde.Printer

/-!
# Changed plans

While a suite runs, its plans are loaded again and again, and clients are told which ones have
changed. A change is found by a fingerprint: the text of a normal form in which the parts of a plan
are sorted. The runner remembers one fingerprint for each kind of plan.
-/
namespace ReactRuntime.Transport
open Library Serde

inductive PlanStatus where
  | draft
  | approved
  | completed
  | cancelled
deriving DecidableEq, Repr

def PlanStatus.asStr : PlanStatus → String
  | .draft => "draft"
  | .approved => "approved"
  | .completed => "completed"
  | .cancelled => "cancelled"

inductive PlanTaskStatus where
  | pending
  | inProgress
  | done
  | blocked
  | needsUpdate
deriving DecidableEq, Repr

def PlanTaskStatus.asStr : PlanTaskStatus → String
  | .pending => "pending"
  | .inProgress => "in_progress"
  | .done => "done"
  | .blocked => "blocked"
  | .needsUpdate => "needs_update"

inductive PlanChecklistItemStatus where
  | pending
  | inProgress
  | done
  | blocked
  | needsUpdate
deriving DecidableEq, Repr

def PlanChecklistItemStatus.asStr : PlanChecklistItemStatus → String
  | .pending => "pending"
  | .inProgress => "in_progress"
  | .done => "done"
  | .blocked => "blocked"
  | .needsUpdate => "needs_update"

inductive PlanChecklistOrigin where
  | initial
deriving DecidableEq, Repr

inductive PlanWorkGroupKind where
  | authorSql
  | authorSchema
  | validate
deriving DecidableEq, Repr

def PlanWorkGroupKind.asStr : PlanWorkGroupKind → String
  | .authorSql => "author_sql"
  | .authorSchema => "author_schema"
  | .validate => "validate"

structure PlanChecklistEvidence where
  kind : String
  toolName : Option String
  toolId : Option String
  stepIdx : Int32
  ts : Option String
deriving DecidableEq, Repr

structure PlanChecklistItem where
  checklistItemId : String
  label : String
  details : Option String
  status : PlanChecklistItemStatus
  origin : PlanChecklistOrigin
  evidence : Option (List PlanChecklistEvidence)
deriving DecidableEq, Repr

structure PlanTask where
  taskKind : Option String
  taskId : String
  label : Option String
  status : PlanTaskStatus
  checklist : List PlanChecklistItem
  details : Option (SortedMap String Json)
deriving DecidableEq

structure PlanWorkGroupItemRef where
  taskId : String
  checklistItemId : String
deriving DecidableEq, Repr

structure PlanWorkGroup where
  groupId : String
  label : String
  kind : PlanWorkGroupKind
  items : List PlanWorkGroupItemRef
  dependsOnGroupIds : Option (List String)
deriving DecidableEq, Repr

structure PlanSnapshot where
  planKind : String
  planKey : String
  status : PlanStatus
  tasks : List PlanTask
  workGroups : List PlanWorkGroup
  projectSnapshot : Option (SortedMap String Json)
deriving DecidableEq

/-- The text in a field of a document, or no text. -/
def textOf (key : String) (v : Json) : String := ((v.get key).bind Json.asStr).getD ""

def normChecklist (items : List PlanChecklistItem) : List Json :=
  sortBy (textOf "checklist_item_id") (items.map fun it => .object
    [("checklist_item_id", .str it.checklistItemId), ("status", .str it.status.asStr)])

def normTask (t : PlanTask) : Json :=
  .object
    [("task_kind", De.option .str t.taskKind),
      ("task_id", .str t.taskId),
      ("label", De.option .str t.label),
      ("status", .str t.status.asStr),
      ("checklist", .arr (normChecklist t.checklist)),
      ("details", De.option (fun details => .obj details.entries) t.details)]

def normItemRef (it : PlanWorkGroupItemRef) : Json :=
  .object [("task_id", .str it.taskId), ("checklist_item_id", .str it.checklistItemId)]

def normGroup (g : PlanWorkGroup) : Json :=
  let items := sortBy (fun it => textOf "task_id" it ++ ":" ++ textOf "checklist_item_id" it)
    (g.items.map normItemRef)
  let deps := sortDedup (g.dependsOnGroupIds.getD [])
  .object
    [("group_id", .str g.groupId),
      ("kind", .str g.kind.asStr),
      ("items", .arr items),
      ("depends_on_group_ids", .arr (deps.map .str))]

/-- The normal form of a plan. -/
def normPlan (p : PlanSnapshot) : Json :=
  let tasks := sortBy (textOf "task_id") (p.tasks.map normTask)
  let groups := sortBy (textOf "group_id") (p.workGroups.map normGroup)
  .object
    [("plan_kind", .str p.planKind),
      ("plan_key", .str p.planKey),
      ("status", .str p.status.asStr),
      ("tasks", .arr tasks),
      ("work_groups", .arr groups)]

section
variable (toString : Json → String)

def semanticPlanFp (p : PlanSnapshot) : String := toString (normPlan p)

structure PlansChanged where
  changed : List String
  changedPlanKeys : List String
deriving DecidableEq, Repr

/-- The fingerprint that was last seen for each kind. -/
abbrev Fingerprints := SortedMap String String

/-- The loop over the loaded plans. -/
def notePlan (acc : Fingerprints × PlansChanged) (p : PlanSnapshot) : Fingerprints × PlansChanged :=
  let newFp := semanticPlanFp toString p
  if acc.1.get p.planKind ≠ some newFp then
    (acc.1.insert p.planKind newFp,
      ⟨acc.2.changed ++ [p.planKind], acc.2.changedPlanKeys ++ [p.planKey]⟩)
  else acc

/-- One tick: the fingerprints after it, and what is sent to the clients, the plans behind their
notification. -/
def planTick (lastPlanFpByKind : Fingerprints) (plans : List PlanSnapshot) :
    Fingerprints × Option (PlansChanged × List PlanSnapshot) :=
  let (fps, event) := plans.foldl (notePlan toString) (lastPlanFpByKind, ⟨[], []⟩)
  (fps, if event.changed.isEmpty then none else some (event, plans))

/-- The fingerprints after the ticks of a run. -/
def planTicks (ticks : List (List PlanSnapshot)) : Fingerprints :=
  ticks.foldl (fun fps plans => (planTick toString fps plans).1) .empty

end

structure UnorderedTask where
  taskKind : Option String
  taskId : String
  label : Option String
  status : PlanTaskStatus
  checklist : Multiset PlanChecklistItem
  details : Option (SortedMap String Json)
deriving DecidableEq

structure UnorderedGroup where
  groupId : String
  label : String
  kind : PlanWorkGroupKind
  items : Multiset PlanWorkGroupItemRef
  dependsOnGroupIds : Option (Multiset String)
deriving DecidableEq

structure UnorderedPlan where
  planKind : String
  planKey : String
  status : PlanStatus
  tasks : Multiset UnorderedTask
  workGroups : Multiset UnorderedGroup
  projectSnapshot : Option (SortedMap String Json)
deriving DecidableEq

def PlanTask.unordered (t : PlanTask) : UnorderedTask :=
  ⟨t.taskKind, t.taskId, t.label, t.status, t.checklist, t.details⟩

def PlanWorkGroup.unordered (g : PlanWorkGroup) : UnorderedGroup :=
  ⟨g.groupId, g.label, g.kind, g.items, g.dependsOnGroupIds.map fun deps => deps⟩

/-- A plan without the order of its tasks, checklist items, groups, group items and dependencies. -/
def PlanSnapshot.unordered (p : PlanSnapshot) : UnorderedPlan :=
  ⟨p.planKind, p.planKey, p.status, p.tasks.map PlanTask.unordered,
    p.workGroups.map PlanWorkGroup.unordered, p.projectSnapshot⟩

/-! What the fingerprint keeps of a plan, whatever the order of parts with different ids. -/

/-- The elements under an id, in their order. -/
def under {α : Type} (id : α → String) (xs : List α) (k : String) : List α :=
  xs.filter fun x => id x = k

/-- The sort key of a group's item. -/
def PlanWorkGroupItemRef.sortKey (it : PlanWorkGroupItemRef) : String :=
  it.taskId ++ ":" ++ it.checklistItemId

structure KeptTask where
  taskKind : Option String
  taskId : String
  label : Option String
  status : PlanTaskStatus
  checklist : String → List PlanChecklistItemStatus
  details : Option (SortedMap String Json)

structure KeptGroup where
  groupId : String
  kind : PlanWorkGroupKind
  items : String → List PlanWorkGroupItemRef
  dependsOnGroupIds : Set String

structure KeptPlan where
  planKind : String
  planKey : String
  status : PlanStatus
  tasks : String → List KeptTask
  workGroups : String → List KeptGroup

/-- Labels, details, origins and evidence of the checklist are left out. -/
def PlanTask.kept (t : PlanTask) : KeptTask :=
  ⟨t.taskKind, t.taskId, t.label, t.status,
    fun id => (under PlanChecklistItem.checklistItemId t.checklist id).map PlanChecklistItem.status,
    t.details⟩

/-- The label of the group is left out, and how often it depends on another one. -/
def PlanWorkGroup.kept (g : PlanWorkGroup) : KeptGroup :=
  ⟨g.groupId, g.kind, under PlanWorkGroupItemRef.sortKey g.items,
    {dep | dep ∈ g.dependsOnGroupIds.getD []}⟩

/-- The project snapshot is left out. -/
def PlanSnapshot.kept (p : PlanSnapshot) : KeptPlan :=
  ⟨p.planKind, p.planKey, p.status, fun id => (under PlanTask.taskId p.tasks id).map PlanTask.kept,
    fun id => (under PlanWorkGroup.groupId p.workGroups id).map PlanWorkGroup.kept⟩

/-- The ids tell the parts of a plan apart. -/
structure PlanSnapshot.Distinct (p : PlanSnapshot) : Prop where
  tasks : (p.tasks.map PlanTask.taskId).Nodup
  checklists : ∀ t ∈ p.tasks, (t.checklist.map PlanChecklistItem.checklistItemId).Nodup
  groups : (p.workGroups.map PlanWorkGroup.groupId).Nodup
  items : ∀ g ∈ p.workGroups, ∀ a ∈ g.items, ∀ b ∈ g.items, a.sortKey = b.sortKey → a = b

/-- The plan that was loaded under the same key at the tick before is the same up to order. -/
def Unchanged (previous : List PlanSnapshot) (p : PlanSnapshot) : Prop :=
  ∃ q ∈ previous, q.planKey = p.planKey ∧ q.unordered = p.unordered

instance (previous : List PlanSnapshot) (p : PlanSnapshot) : Decidable (Unchanged previous p) :=
  inferInstanceAs (Decidable (∃ q ∈ previous, q.planKey = p.planKey ∧ q.unordered = p.unordered))

/-- The keys that are new at a tick or whose plans have changed. -/
def changedKeys (previous plans : List PlanSnapshot) : List String :=
  (plans.filter fun p => !decide (Unchanged previous p)).map PlanSnapshot.planKey

/-- At every tick the clients are told exactly the changed keys, and nothing if there is none. -/
def ExactNotifications (toString : Json → String) (ticks : List (List PlanSnapshot)) : Prop :=
  ∀ before plans after, ticks = before ++ plans :: after →
    ((planTick toString (planTicks toString before) plans).2.map fun sent =>
      sent.1.changedPlanKeys) =
        let keys := changedKeys (before.getLast?.getD []) plans
        if keys.isEmpty then none else some keys

/-- The last plan of a kind among those loaded so far. -/
def lastOfKind (seen : List PlanSnapshot) (kind : String) : Option PlanSnapshot :=
  (seen.filter fun q => q.planKind = kind).getLast?

/-- The last plan of the kind has the normal form of a plan. -/
def Recognized (seen : List PlanSnapshot) (p : PlanSnapshot) : Prop :=
  ∃ q ∈ lastOfKind seen p.planKind, normPlan q = normPlan p

/-- What has to hold for a plan that is loaded behind the `earlier` ones of its tick, after the ticks
`before`, for it to be reported exactly if it is new or has changed. -/
structure ReportedRightly (before : List (List PlanSnapshot)) (earlier : List PlanSnapshot)
    (p : PlanSnapshot) : Prop where
  /-- Once an unchanged plan was loaded, no other plan of its kind is loaded before it comes again. -/
  kinds : ∀ ticks front r back, before = ticks ++ [front ++ r :: back] → r.unordered = p.unordered →
    ∀ q ∈ back ++ earlier, q.planKind ≠ p.planKind
  /-- Where ids or sort keys of an unchanged plan repeat, the parts under each of them have kept their
  order. -/
  ids : ∀ r ∈ before.getLast?.getD [], r.unordered = p.unordered → ¬ r.Distinct → r.kept = p.kept
  /-- A plan that is loaded again as it was has not been missing at the tick before, -/
  gaps : ∀ q ∈ lastOfKind (before.flatten ++ earlier) p.planKind, q.kept = p.kept →
    q ∈ before.getLast?.getD []
  /-- and neither has only what the fingerprint leaves out changed. -/
  leftOut : ∀ q ∈ lastOfKind (before.flatten ++ earlier) p.planKind, q.kept = p.kept →
    q.unordered = p.unordered

/-- Every plan that a run loads is reported rightly. -/
def AllReportedRightly (ticks : List (List PlanSnapshot)) : Prop :=
  ∀ before earlier p later after, ticks = before ++ (earlier ++ p :: later) :: after →
    ReportedRightly before earlier p

section
variable {α : Type} {P : List α → α → List α → Prop} {a : α} {xs : List α}

/-- An element of a list with what stands before and behind it: the first one, or one of the rest. -/
theorem forall_split_cons : (∀ front x back, a :: xs = front ++ x :: back → P front x back) ↔
    P [] a xs ∧ ∀ front x back, xs = front ++ x :: back → P (a :: front) x back := by
  constructor
  · intro h
    exact ⟨h [] a xs rfl, fun front x back hsplit => h (a :: front) x back (by rw [hsplit]; rfl)⟩
  · rintro ⟨hhead, htail⟩ front x back hsplit
    cases front with
    | nil =>
      obtain ⟨rfl, rfl⟩ := List.cons.inj hsplit
      exact hhead
    | cons b front =>
      obtain ⟨rfl, hrest⟩ := List.cons.inj hsplit
      exact htail front x back hrest

theorem forall_split_singleton :
    (∀ front x back, [a] = front ++ x :: back → P front x back) ↔ P [] a [] := by
  rw [forall_split_cons, and_iff_left]
  intro front x back hsplit
  simp at hsplit

/-- The last one, or one of those before. -/
theorem forall_split_concat : (∀ front x back, xs ++ [a] = front ++ x :: back → P front x back) ↔
    (∀ front x back, xs = front ++ x :: back → P front x (back ++ [a])) ∧ P xs a [] := by
  constructor
  · intro h
    exact ⟨fun front x back hsplit => h front x (back ++ [a]) (by simp [hsplit]), h xs a [] rfl⟩
  · rintro ⟨hfront, hlast⟩ front x back hsplit
    cases back using List.reverseRecOn with
    | nil =>
      obtain ⟨rfl, hx⟩ := List.append_inj' hsplit rfl
      obtain ⟨rfl, -⟩ := List.cons.inj hx
      exact hlast
    | append_singleton back b =>
      rw [← List.cons_append, ← List.append_assoc] at hsplit
      obtain ⟨hxs, hb⟩ := List.append_inj' hsplit rfl
      obtain ⟨rfl, -⟩ := List.cons.inj hb
      exact hfront front x back hxs

/-- The elements of the lists in a list, list by list. -/
theorem forall_split_split {Q : List (List α) → List α → α → Prop} {xss : List (List α)} :
    (∀ before front x back after, xss = before ++ (front ++ x :: back) :: after →
      Q before front x) ↔
    ∀ before xs after, xss = before ++ xs :: after →
      ∀ front x back, xs = front ++ x :: back → Q before front x := by
  constructor
  · intro h before xs after hxss front x back hxs
    subst hxs
    exact h before front x back after hxss
  · intro h before front x back after hxss
    exact h before _ after hxss front x back rfl

end

/-- Documents are sorted by a text of theirs, which tells apart what they are made from. -/
theorem sortBy_map_eq {α : Type} {f : α → Json} (key : Json → String) {xs ys : List α}
    (h : (xs.map f).Perm (ys.map f)) (hinj : ∀ a ∈ xs, ∀ b ∈ xs, key (f a) = key (f b) → a = b) :
    sortBy key (xs.map f) = sortBy key (ys.map f) := by
  refine sortBy_eq_of_perm h fun a ha b hb hab => ?_
  obtain ⟨x, hx, rfl⟩ := List.mem_map.mp ha
  obtain ⟨y, hy, rfl⟩ := List.mem_map.mp hb
  rw [hinj x hx y hy hab]

theorem textOf_object (key : String) (fs : Fields) :
    textOf key (.object fs) = ((fs.reverse.lookup key).bind Json.asStr).getD "" := by
  rw [textOf, Json.object, Json.get, lookup_object]

theorem normChecklist_eq {items items' : List PlanChecklistItem} (h : items.Perm items')
    (hids : (items.map PlanChecklistItem.checklistItemId).Nodup) :
    normChecklist items = normChecklist items' := by
  refine sortBy_map_eq _ (h.map _) fun a ha b hb hab => List.inj_on_of_nodup_map hids ha hb ?_
  simpa [textOf_object, SortedMap.lookup_cons_ite, Json.asStr] using hab

theorem textOf_normTask (t : PlanTask) : textOf "task_id" (normTask t) = t.taskId := by
  simp [normTask, textOf_object, SortedMap.lookup_cons_ite, Json.asStr]

theorem textOf_normGroup (g : PlanWorkGroup) : textOf "group_id" (normGroup g) = g.groupId := by
  simp [normGroup, textOf_object, SortedMap.lookup_cons_ite, Json.asStr]

theorem sortKey_normItemRef (it : PlanWorkGroupItemRef) :
    textOf "task_id" (normItemRef it) ++ ":" ++ textOf "checklist_item_id" (normItemRef it) =
      it.sortKey := by
  simp [normItemRef, textOf_object, SortedMap.lookup_cons_ite, Json.asStr,
    PlanWorkGroupItemRef.sortKey]

theorem normTask_eq {t t' : PlanTask} (h : t.unordered = t'.unordered)
    (hids : (t.checklist.map PlanChecklistItem.checklistItemId).Nodup) :
    normTask t = normTask t' := by
  simp only [PlanTask.unordered, UnorderedTask.mk.injEq, Multiset.coe_eq_coe] at h
  obtain ⟨hkind, hid, hlabel, hstatus, hchecklist, hdetails⟩ := h
  rw [normTask, normTask, hkind, hid, hlabel, hstatus, normChecklist_eq hchecklist hids, hdetails]

theorem normGroup_eq {g g' : PlanWorkGroup} (h : g.unordered = g'.unordered)
    (hitems : ∀ a ∈ g.items, ∀ b ∈ g.items, a.sortKey = b.sortKey → a = b) :
    normGroup g = normGroup g' := by
  simp only [PlanWorkGroup.unordered, UnorderedGroup.mk.injEq, Multiset.coe_eq_coe] at h
  obtain ⟨hid, -, hkind, hperm, hdeps⟩ := h
  have hsorted : sortDedup (g.dependsOnGroupIds.getD []) =
      sortDedup (g'.dependsOnGroupIds.getD []) := by
    refine sortDedup_congr (List.Perm.mem_iff ?_)
    cases hg : g.dependsOnGroupIds <;> cases hg' : g'.dependsOnGroupIds <;>
      simp_all [Multiset.coe_eq_coe]
  have hrefs := sortBy_map_eq (f := normItemRef)
    (fun it => textOf "task_id" it ++ ":" ++ textOf "checklist_item_id" it)
    (hperm.map normItemRef) fun a ha b hb hab => hitems a ha b hb (by
      simpa only [sortKey_normItemRef] using hab)
  simp only [normGroup, hid, hkind, hrefs, hsorted]

/-- Where the ids are distinct, the normal form does not depend on the order of the parts. -/
theorem normPlan_eq_of_unordered {p q : PlanSnapshot} (hp : p.Distinct)
    (h : p.unordered = q.unordered) : normPlan p = normPlan q := by
  simp only [PlanSnapshot.unordered, UnorderedPlan.mk.injEq, Multiset.coe_eq_coe] at h
  obtain ⟨hkind, hkey, hstatus, htasks, hgroups, -⟩ := h
  have htasks' : sortBy (textOf "task_id") (p.tasks.map normTask) =
      sortBy (textOf "task_id") (q.tasks.map normTask) := by
    refine sortBy_map_eq _ (perm_map_of_determined htasks fun t ht t' _ heq =>
      normTask_eq heq (hp.checklists t ht)) fun a ha b hb hab => ?_
    rw [textOf_normTask, textOf_normTask] at hab
    exact List.inj_on_of_nodup_map hp.tasks ha hb hab
  have hgroups' : sortBy (textOf "group_id") (p.workGroups.map normGroup) =
      sortBy (textOf "group_id") (q.workGroups.map normGroup) := by
    refine sortBy_map_eq _ (perm_map_of_determined hgroups fun g hg g' _ heq =>
      normGroup_eq heq (hp.items g hg)) fun a ha b hb hab => ?_
    rw [textOf_normGroup, textOf_normGroup] at hab
    exact List.inj_on_of_nodup_map hp.groups ha hb hab
  simp only [normPlan, hkind, hkey, hstatus, htasks', hgroups']

/-! What the normal form says. -/

theorem map_eq_map_iff_of {α β γ : Type} {f : α → β} {g : α → γ} {xs ys : List α}
    (h : ∀ a ∈ xs, ∀ b ∈ ys, f a = f b ↔ g a = g b) : xs.map f = ys.map f ↔ xs.map g = ys.map g := by
  induction xs generalizing ys with
  | nil => simp [eq_comm]
  | cons x xs ih =>
    cases ys with
    | nil => simp
    | cons y ys =>
      have hrest := ih fun a ha b hb => h a (List.mem_cons_of_mem x ha) b (List.mem_cons_of_mem y hb)
      simp only [List.map_cons, List.cons.injEq, hrest,
        h x List.mem_cons_self y List.mem_cons_self]

/-- Sorted documents agree if what they keep of the elements agrees under each id. -/
theorem sortBy_map_eq_iff {α β : Type} {f : α → Json} {key : Json → String} {id : α → String}
    {g : α → β} (hkey : ∀ a, key (f a) = id a)
    (hg : ∀ a b, id a = id b → (f a = f b ↔ g a = g b)) {xs ys : List α} :
    sortBy key (xs.map f) = sortBy key (ys.map f) ↔
      (fun k => (under id xs k).map g) = fun k => (under id ys k).map g := by
  rw [sortBy_eq_iff, funext_iff]
  refine forall_congr' fun k => ?_
  have hunder : ∀ zs : List α, (zs.map f).filter (fun v => key v = k) = (under id zs k).map f := by
    intro zs
    simp only [List.filter_map, under, Function.comp_def, hkey]
  rw [hunder, hunder]
  refine map_eq_map_iff_of fun a ha b hb => hg a b ?_
  have hak : id a = k := by simpa [under] using List.of_mem_filter ha
  have hbk : id b = k := by simpa [under] using List.of_mem_filter hb
  rw [hak, hbk]

theorem PlanStatus.asStr_injective : Function.Injective PlanStatus.asStr := by
  intro a b h
  cases a <;> cases b <;> first | rfl | exact absurd h (by decide)

theorem PlanTaskStatus.asStr_injective : Function.Injective PlanTaskStatus.asStr := by
  intro a b h
  cases a <;> cases b <;> first | rfl | exact absurd h (by decide)

theorem PlanChecklistItemStatus.asStr_injective :
    Function.Injective PlanChecklistItemStatus.asStr := by
  intro a b h
  cases a <;> cases b <;> first | rfl | exact absurd h (by decide)

theorem PlanWorkGroupKind.asStr_injective : Function.Injective PlanWorkGroupKind.asStr := by
  intro a b h
  cases a <;> cases b <;> first | rfl | exact absurd h (by decide)

theorem option_str_inj {o o' : Option String} :
    De.option Json.str o = De.option Json.str o' ↔ o = o' :=
  (De.option_injective (by simp) fun _ _ h => Json.str.inj h).eq_iff

theorem option_details_inj {o o' : Option (SortedMap String Json)} :
    De.option (fun details => Json.obj details.entries) o =
      De.option (fun details => Json.obj details.entries) o' ↔ o = o' := by
  refine (De.option_injective (by simp) fun m m' h => ?_).eq_iff
  cases m
  cases m'
  cases h
  rfl

theorem normChecklist_eq_iff {items items' : List PlanChecklistItem} :
    normChecklist items = normChecklist items' ↔
      (fun id => (under PlanChecklistItem.checklistItemId items id).map PlanChecklistItem.status) =
        fun id => (under PlanChecklistItem.checklistItemId items' id).map PlanChecklistItem.status := by
  refine sortBy_map_eq_iff (fun it => ?_) fun a b hid => ?_
  · simp [textOf, SortedMap.lookup_cons_ite, Json.asStr]
  · constructor
    · intro h
      have hstatus := congrArg (fun v => v.get "status") h
      simp [SortedMap.lookup_cons_ite] at hstatus
      exact PlanChecklistItemStatus.asStr_injective hstatus
    · intro h
      rw [hid, h]

theorem normTask_eq_iff {t t' : PlanTask} : normTask t = normTask t' ↔ t.kept = t'.kept := by
  rw [PlanTask.kept, PlanTask.kept, KeptTask.mk.injEq, ← normChecklist_eq_iff]
  constructor
  · intro h
    have hget : ∀ k, (normTask t).get k = (normTask t').get k := fun k => by rw [h]
    have hkind := hget "task_kind"
    have hid := hget "task_id"
    have hlabel := hget "label"
    have hstatus := hget "status"
    have hchecklist := hget "checklist"
    have hdetails := hget "details"
    simp [normTask, SortedMap.lookup_cons_ite] at hkind hid hlabel hstatus hchecklist hdetails
    exact ⟨option_str_inj.mp hkind, hid, option_str_inj.mp hlabel,
      PlanTaskStatus.asStr_injective hstatus, hchecklist, option_details_inj.mp hdetails⟩
  · rintro ⟨hkind, hid, hlabel, hstatus, hchecklist, hdetails⟩
    rw [normTask, normTask, hkind, hid, hlabel, hstatus, hchecklist, hdetails]

theorem normItemRef_injective : Function.Injective normItemRef := by
  intro it it' h
  have htask := congrArg (fun v => v.get "task_id") h
  have hitem := congrArg (fun v => v.get "checklist_item_id") h
  simp [normItemRef, SortedMap.lookup_cons_ite] at htask hitem
  cases it
  cases it'
  simp_all

theorem normItems_eq_iff {items items' : List PlanWorkGroupItemRef} :
    sortBy (fun it => textOf "task_id" it ++ ":" ++ textOf "checklist_item_id" it)
        (items.map normItemRef) =
      sortBy (fun it => textOf "task_id" it ++ ":" ++ textOf "checklist_item_id" it)
        (items'.map normItemRef) ↔
      under PlanWorkGroupItemRef.sortKey items = under PlanWorkGroupItemRef.sortKey items' := by
  refine (sortBy_map_eq_iff (g := fun it => it) (fun it => sortKey_normItemRef it)
    fun a b _ => normItemRef_injective.eq_iff).trans ?_
  simp only [List.map_id']

theorem normGroup_eq_iff {g g' : PlanWorkGroup} : normGroup g = normGroup g' ↔ g.kept = g'.kept := by
  have hdeps : sortDedup (g.dependsOnGroupIds.getD []) = sortDedup (g'.dependsOnGroupIds.getD []) ↔
      {dep | dep ∈ g.dependsOnGroupIds.getD []} = {dep | dep ∈ g'.dependsOnGroupIds.getD []} := by
    constructor
    · intro h
      ext dep
      rw [Set.mem_ofPred_eq, Set.mem_ofPred_eq, ← mem_sortDedup, h, mem_sortDedup]
    · intro h
      exact sortDedup_congr fun {dep} => by simpa using Set.ext_iff.mp h dep
  rw [PlanWorkGroup.kept, PlanWorkGroup.kept, KeptGroup.mk.injEq, ← normItems_eq_iff, ← hdeps]
  constructor
  · intro h
    have hget : ∀ k, (normGroup g).get k = (normGroup g').get k := fun k => by rw [h]
    have hid := hget "group_id"
    have hkind := hget "kind"
    have hitems := hget "items"
    have hdepends := hget "depends_on_group_ids"
    simp [normGroup, SortedMap.lookup_cons_ite] at hid hkind hitems hdepends
    exact ⟨hid, PlanWorkGroupKind.asStr_injective hkind, hitems,
      List.map_injective_iff.mpr (fun _ _ h => Json.str.inj h) hdepends⟩
  · rintro ⟨hid, hkind, hitems, hdepends⟩
    simp only [normGroup, hid, hkind, hitems, hdepends]

/-- The fingerprint is made from exactly what is kept of a plan. -/
theorem normPlan_eq_iff {p q : PlanSnapshot} : normPlan p = normPlan q ↔ p.kept = q.kept := by
  rw [PlanSnapshot.kept, PlanSnapshot.kept, KeptPlan.mk.injEq,
    ← sortBy_map_eq_iff textOf_normTask fun _ _ _ => normTask_eq_iff,
    ← sortBy_map_eq_iff textOf_normGroup fun _ _ _ => normGroup_eq_iff]
  constructor
  · intro h
    have hget : ∀ k, (normPlan p).get k = (normPlan q).get k := fun k => by rw [h]
    have hkind := hget "plan_kind"
    have hkey := hget "plan_key"
    have hstatus := hget "status"
    have htasks := hget "tasks"
    have hgroups := hget "work_groups"
    simp [normPlan, SortedMap.lookup_cons_ite] at hkind hkey hstatus htasks hgroups
    exact ⟨hkind, hkey, PlanStatus.asStr_injective hstatus, htasks, hgroups⟩
  · rintro ⟨hkind, hkey, hstatus, htasks, hgroups⟩
    simp only [normPlan, hkind, hkey, hstatus, htasks, hgroups]

theorem kept_eq_of_unordered {p q : PlanSnapshot} (hp : p.Distinct) (h : p.unordered = q.unordered) :
    p.kept = q.kept :=
  normPlan_eq_iff.mp (normPlan_eq_of_unordered hp h)

section
variable {seen rest : List PlanSnapshot} {q r : PlanSnapshot} {kind : String}

theorem lastOfKind_eq_none : lastOfKind rest kind = none ↔ ∀ q ∈ rest, q.planKind ≠ kind := by
  simp [lastOfKind]

theorem of_mem_lastOfKind (h : q ∈ lastOfKind seen kind) : q ∈ seen ∧ q.planKind = kind := by
  simpa using List.mem_filter.mp (List.mem_of_getLast? h)

theorem lastOfKind_append_cons (seen rest : List PlanSnapshot) (hr : r.planKind = kind) :
    lastOfKind (seen ++ r :: rest) kind = some ((lastOfKind rest kind).getD r) := by
  simp [lastOfKind, List.filter_append, hr, List.getLast?_append, List.getLast?_cons]

end

section
variable {before : List (List PlanSnapshot)} {earlier later : List PlanSnapshot} {p : PlanSnapshot}

/-- The last plan of the kind is the one that was loaded under the same key at the tick before, exactly
if no other plan of the kind was loaded since. -/
theorem lastOfKind_previous {ticks : List (List PlanSnapshot)} {front back : List PlanSnapshot}
    {r : PlanSnapshot} (hbefore : before = ticks ++ [front ++ r :: back])
    (hprevious : ((front ++ r :: back).map PlanSnapshot.planKey).Nodup)
    (hplans : ((earlier ++ p :: later).map PlanSnapshot.planKey).Nodup)
    (hkey : r.planKey = p.planKey) (hkind : r.planKind = p.planKind) :
    (∃ q ∈ lastOfKind (before.flatten ++ earlier) p.planKind, q.planKey = p.planKey) ↔
      ∀ q ∈ back ++ earlier, q.planKind ≠ p.planKind := by
  have hseen : before.flatten ++ earlier = ticks.flatten ++ front ++ r :: (back ++ earlier) := by
    simp [hbefore]
  rw [hseen, lastOfKind_append_cons _ _ hkind, ← lastOfKind_eq_none]
  have hother : ∀ q ∈ back ++ earlier, q.planKey ≠ p.planKey := by
    rw [List.map_append, List.map_cons, List.nodup_append, List.nodup_cons] at hprevious
    rw [List.map_append, List.map_cons, List.nodup_append] at hplans
    intro q hq
    rcases List.mem_append.mp hq with hback | hearlier
    · exact fun heq => hprevious.2.1.1 (hkey ▸ heq ▸ List.mem_map_of_mem hback)
    · exact hplans.2.2 _ (List.mem_map_of_mem hearlier) _ List.mem_cons_self
  cases hlast : lastOfKind (back ++ earlier) p.planKind with
  | none => simpa using hkey
  | some q => simpa using hother q (of_mem_lastOfKind hlast).1

/-- A plan of the tick before, between its neighbours. -/
theorem exists_previous {r : PlanSnapshot} (hr : r ∈ before.getLast?.getD []) :
    ∃ ticks front back, before = ticks ++ [front ++ r :: back] := by
  cases before using List.reverseRecOn with
  | nil => simp at hr
  | append_singleton ticks previous =>
    rw [List.getLast?_concat, Option.getD_some] at hr
    obtain ⟨front, back, rfl⟩ := List.append_of_mem hr
    exact ⟨ticks, front, back, rfl⟩

section
variable {ticks : List (List PlanSnapshot)} {front back : List PlanSnapshot} {r : PlanSnapshot}

/-- A plan of the tick before is the last one of its kind, if none was loaded since. -/
theorem lastOfKind_eq_previous (hticks : before = ticks ++ [front ++ r :: back])
    (hkind : r.planKind = p.planKind) (hkinds : ∀ q ∈ back ++ earlier, q.planKind ≠ p.planKind) :
    lastOfKind (before.flatten ++ earlier) p.planKind = some r := by
  have hseen : before.flatten ++ earlier = ticks.flatten ++ front ++ r :: (back ++ earlier) := by
    simp [hticks]
  rw [hseen, lastOfKind_append_cons _ _ hkind, lastOfKind_eq_none.mpr hkinds, Option.getD_none]

/-- An unchanged plan that is recognized was compared with itself. -/
theorem kept_of_recognized (hbefore : ∀ plans ∈ before, (plans.map PlanSnapshot.planKey).Nodup)
    (hplans : ((earlier ++ p :: later).map PlanSnapshot.planKey).Nodup)
    (hticks : before = ticks ++ [front ++ r :: back]) (hr : r.unordered = p.unordered)
    (hrecognized : Recognized (before.flatten ++ earlier) p) :
    (∀ q ∈ back ++ earlier, q.planKind ≠ p.planKind) ∧ r.kept = p.kept := by
  obtain ⟨q, hq, hnorm⟩ := hrecognized
  have hkept := normPlan_eq_iff.mp hnorm
  have hkind : r.planKind = p.planKind := congrArg UnorderedPlan.planKind hr
  have hkinds := (lastOfKind_previous hticks (hbefore _ (by simp [hticks])) hplans
    (congrArg UnorderedPlan.planKey hr) hkind).mp ⟨q, hq, congrArg KeptPlan.planKey hkept⟩
  rw [lastOfKind_eq_previous hticks hkind hkinds, Option.mem_some_iff] at hq
  exact ⟨hkinds, hq ▸ hkept⟩

end

theorem ReportedRightly.recognized_iff (h : ReportedRightly before earlier p) :
    Recognized (before.flatten ++ earlier) p ↔ Unchanged (before.getLast?.getD []) p := by
  constructor
  · rintro ⟨q, hq, hnorm⟩
    have hkept := normPlan_eq_iff.mp hnorm
    exact ⟨q, h.gaps q hq hkept, congrArg KeptPlan.planKey hkept, h.leftOut q hq hkept⟩
  · rintro ⟨r, hmem, -, hr⟩
    obtain ⟨ticks, front, back, hticks⟩ := exists_previous hmem
    have hkept : r.kept = p.kept := by
      by_cases hdistinct : r.Distinct
      · exact kept_eq_of_unordered hdistinct hr
      · exact h.ids r hmem hr hdistinct
    exact ⟨r, lastOfKind_eq_previous hticks (congrArg UnorderedPlan.planKind hr)
      (h.kinds ticks front r back hticks hr), normPlan_eq_iff.mpr hkept⟩

/-- A plan is recognized exactly if it is unchanged, as soon as kinds, ids and the fields that are left
out allow it. -/
theorem reportedRightly_iff (hbefore : ∀ plans ∈ before, (plans.map PlanSnapshot.planKey).Nodup)
    (hplans : ((earlier ++ p :: later).map PlanSnapshot.planKey).Nodup) :
    (Recognized (before.flatten ++ earlier) p ↔ Unchanged (before.getLast?.getD []) p) ↔
      ReportedRightly before earlier p := by
  refine ⟨fun hiff => ?_, ReportedRightly.recognized_iff⟩
  have hunchanged : ∀ ticks front r back, before = ticks ++ [front ++ r :: back] →
      r.unordered = p.unordered → (∀ q ∈ back ++ earlier, q.planKind ≠ p.planKind) ∧
        r.kept = p.kept := by
    intro ticks front r back hticks hr
    have hmem : r ∈ before.getLast?.getD [] := by simp [hticks]
    exact kept_of_recognized hbefore hplans hticks hr
      (hiff.mpr ⟨r, hmem, congrArg UnorderedPlan.planKey hr, hr⟩)
  have hchanged : ∀ q ∈ lastOfKind (before.flatten ++ earlier) p.planKind, q.kept = p.kept →
      q ∈ before.getLast?.getD [] ∧ q.unordered = p.unordered := by
    intro q hq hkept
    obtain ⟨r, hmem, -, hr⟩ := hiff.mp ⟨q, hq, normPlan_eq_iff.mpr hkept⟩
    obtain ⟨ticks, front, back, hticks⟩ := exists_previous hmem
    rw [lastOfKind_eq_previous hticks (congrArg UnorderedPlan.planKind hr)
      (hunchanged ticks front r back hticks hr).1, Option.mem_some_iff] at hq
    exact hq ▸ ⟨hmem, hr⟩
  refine ⟨fun ticks front r back hticks hr => (hunchanged ticks front r back hticks hr).1,
    fun r hmem hr _ => ?_, fun q hq hkept => (hchanged q hq hkept).1,
    fun q hq hkept => (hchanged q hq hkept).2⟩
  obtain ⟨ticks, front, back, hticks⟩ := exists_previous hmem
  exact (hunchanged ticks front r back hticks hr).2

end

theorem allReportedRightly_nil : AllReportedRightly [] := by
  intro before earlier p later after hticks
  simp at hticks

/-- One tick more that loads one plan. -/
theorem allReportedRightly_concat_one {ticks : List (List PlanSnapshot)} {p : PlanSnapshot} :
    AllReportedRightly (ticks ++ [[p]]) ↔ AllReportedRightly ticks ∧ ReportedRightly ticks [] p := by
  rw [AllReportedRightly, AllReportedRightly, forall_split_split, forall_split_split,
    forall_split_concat, forall_split_singleton]

section
variable {toString : Json → String} {seen plans : List PlanSnapshot}

/-- The fingerprint of a kind is that of the last plan of the kind. -/
def Remembers (toString : Json → String) (fps : Fingerprints) (seen : List PlanSnapshot) : Prop :=
  ∀ kind, fps.get kind = (lastOfKind seen kind).map (semanticPlanFp toString)

theorem lastOfKind_concat (seen : List PlanSnapshot) (p : PlanSnapshot) (kind : String) :
    lastOfKind (seen ++ [p]) kind = if p.planKind = kind then some p else lastOfKind seen kind := by
  by_cases hkind : p.planKind = kind <;> simp [lastOfKind, hkind]

/-- The fingerprint remembered for the kind of a plan is that of the plan. -/
def FingerprintKnown (toString : Json → String) (seen : List PlanSnapshot) (p : PlanSnapshot) :
    Prop :=
  (lastOfKind seen p.planKind).map (semanticPlanFp toString) = some (semanticPlanFp toString p)

instance (p : PlanSnapshot) : Decidable (FingerprintKnown toString seen p) :=
  inferInstanceAs (Decidable (_ = _))

/-- A plan that is noted is reported unless the fingerprint of its kind is its own. -/
theorem notePlan_spec {acc : Fingerprints × PlansChanged} (h : Remembers toString acc.1 seen)
    (p : PlanSnapshot) :
    Remembers toString (notePlan toString acc p).1 (seen ++ [p]) ∧
      (notePlan toString acc p).2 =
        if FingerprintKnown toString seen p then acc.2
        else ⟨acc.2.changed ++ [p.planKind], acc.2.changedPlanKeys ++ [p.planKey]⟩ := by
  have hfound := h p.planKind
  by_cases hknown : FingerprintKnown toString seen p
  · have hsame : acc.1.get p.planKind = some (semanticPlanFp toString p) := hfound.trans hknown
    rw [notePlan, hsame, if_neg (by simp), if_pos hknown]
    refine ⟨fun kind => ?_, rfl⟩
    rw [lastOfKind_concat, h kind]
    split_ifs with hkind
    · rw [← hkind, hknown, Option.map_some]
    · rfl
  · have hother : acc.1.get p.planKind ≠ some (semanticPlanFp toString p) :=
      fun heq => hknown (hfound.symm.trans heq)
    rw [notePlan, if_pos hother, if_neg hknown]
    refine ⟨fun kind => ?_, rfl⟩
    rw [lastOfKind_concat, SortedMap.get_insert, h kind]
    rcases eq_or_ne kind p.planKind with rfl | hkind
    · simp
    · simp [hkind, hkind.symm]

/-- The keys that a tick reports. -/
def reportedKeys (toString : Json → String) (seen : List PlanSnapshot) :
    List PlanSnapshot → List String
  | [] => []
  | p :: plans =>
    if FingerprintKnown toString seen p then reportedKeys toString (seen ++ [p]) plans
    else p.planKey :: reportedKeys toString (seen ++ [p]) plans

theorem foldl_notePlan_spec {acc : Fingerprints × PlansChanged}
    (h : Remembers toString acc.1 seen)
    (hlength : acc.2.changed.length = acc.2.changedPlanKeys.length) (plans : List PlanSnapshot) :
    Remembers toString (plans.foldl (notePlan toString) acc).1 (seen ++ plans) ∧
      (plans.foldl (notePlan toString) acc).2.changed.length =
        (plans.foldl (notePlan toString) acc).2.changedPlanKeys.length ∧
      (plans.foldl (notePlan toString) acc).2.changedPlanKeys =
        acc.2.changedPlanKeys ++ reportedKeys toString seen plans := by
  induction plans generalizing acc seen with
  | nil => simpa [reportedKeys] using ⟨h, hlength⟩
  | cons p plans ih =>
    obtain ⟨hremembers, hevent⟩ := notePlan_spec h p
    have hlength' : (notePlan toString acc p).2.changed.length =
        (notePlan toString acc p).2.changedPlanKeys.length := by
      rw [hevent]
      split_ifs
      · exact hlength
      · simp [hlength]
    obtain ⟨hrest, hrestLength, hkeys⟩ := ih hremembers hlength'
    rw [List.append_assoc, List.singleton_append] at hrest
    refine ⟨hrest, hrestLength, ?_⟩
    rw [List.foldl_cons, hkeys, hevent, reportedKeys]
    by_cases hknown : FingerprintKnown toString seen p
    · rw [if_pos hknown, if_pos hknown]
    · rw [if_neg hknown, if_neg hknown, List.append_assoc, List.singleton_append]

/-- A notification without keys is not sent. -/
def sentKeys (keys : List String) : Option (List String) := if keys.isEmpty then none else some keys

theorem sentKeys_inj {keys keys' : List String} : sentKeys keys = sentKeys keys' ↔ keys = keys' := by
  cases keys <;> cases keys' <;> simp [sentKeys]

theorem planTick_spec {fps : Fingerprints} (h : Remembers toString fps seen)
    (plans : List PlanSnapshot) :
    Remembers toString (planTick toString fps plans).1 (seen ++ plans) ∧
      (planTick toString fps plans).2.map (fun sent => sent.1.changedPlanKeys) =
        sentKeys (reportedKeys toString seen plans) := by
  have hnothing : Remembers toString (fps, (⟨[], []⟩ : PlansChanged)).1 seen := h
  obtain ⟨hremembers, hlength, hkeys⟩ := foldl_notePlan_spec hnothing rfl plans
  refine ⟨hremembers, ?_⟩
  rw [List.nil_append] at hkeys
  have hempty : (plans.foldl (notePlan toString) (fps, ⟨[], []⟩)).2.changed.isEmpty =
      (plans.foldl (notePlan toString) (fps, ⟨[], []⟩)).2.changedPlanKeys.isEmpty := by
    rw [Bool.eq_iff_iff, List.isEmpty_iff_length_eq_zero, List.isEmpty_iff_length_eq_zero, hlength]
  rw [planTick, sentKeys, ← hkeys]
  dsimp only
  rw [hempty]
  split_ifs <;> rfl

theorem remembers_planTicks (ticks : List (List PlanSnapshot)) :
    Remembers toString (planTicks toString ticks) ticks.flatten := by
  induction ticks using List.reverseRecOn with
  | nil => exact fun kind => rfl
  | append_singleton ticks plans ih =>
    rw [planTicks, List.foldl_concat, ← planTicks, List.flatten_concat]
    exact (planTick_spec ih plans).1

theorem reportedKeys_subset (seen plans : List PlanSnapshot) :
    reportedKeys toString seen plans ⊆ plans.map PlanSnapshot.planKey := by
  induction plans generalizing seen with
  | nil => simp [reportedKeys]
  | cons p plans ih =>
    rw [reportedKeys, List.map_cons]
    split_ifs
    · exact fun key hkey => List.mem_cons_of_mem _ (ih _ hkey)
    · exact List.cons_subset_cons _ (ih _)

/-- Where each key is loaded once, the reported keys are the right ones exactly if each plan is
reported rightly. -/
theorem reportedKeys_eq_iff {same : PlanSnapshot → Bool}
    (hkeys : (plans.map PlanSnapshot.planKey).Nodup) :
    reportedKeys toString seen plans = (plans.filter fun p => !same p).map PlanSnapshot.planKey ↔
      ∀ earlier p later, plans = earlier ++ p :: later →
        (FingerprintKnown toString (seen ++ earlier) p ↔ same p = true) := by
  induction plans generalizing seen with
  | nil => simp [reportedKeys]
  | cons p plans ih =>
    rw [List.map_cons, List.nodup_cons] at hkeys
    have hothers : p.planKey ∉ (plans.filter fun q => !same q).map PlanSnapshot.planKey :=
      fun hmem => hkeys.1 (List.map_subset _ (fun q hq => List.mem_of_mem_filter hq) hmem)
    have ih := @ih (seen ++ [p]) hkeys.2
    simp only [List.append_assoc, List.singleton_append] at ih
    rw [forall_split_cons, ← ih, reportedKeys, List.append_nil]
    by_cases hknown : FingerprintKnown toString seen p <;> cases hsame : same p
    · -- the plan is not reported although it should be
      rw [if_pos hknown, List.filter_cons_of_pos (by simp [hsame]), List.map_cons]
      refine iff_of_false (fun heq => ?_) (by simp [hknown])
      exact hkeys.1 (reportedKeys_subset _ _ (heq ▸ List.mem_cons_self))
    · simp [hknown, hsame]
    · simp [hknown, hsame]
    · rw [if_neg hknown, List.filter_cons_of_neg (by simp [hsame])]
      refine iff_of_false (fun heq => ?_) (by simp [hknown])
      rw [← heq] at hothers
      exact hothers List.mem_cons_self

/-- The clients are told exactly the changed keys if the fingerprint of its kind tells of each plan
whether it has changed. -/
theorem exactNotifications_iff {ticks : List (List PlanSnapshot)}
    (hkeys : ∀ plans ∈ ticks, (plans.map PlanSnapshot.planKey).Nodup) :
    ExactNotifications toString ticks ↔
      ∀ before earlier p later after, ticks = before ++ (earlier ++ p :: later) :: after →
        (FingerprintKnown toString (before.flatten ++ earlier) p ↔
          Unchanged (before.getLast?.getD []) p) := by
  rw [ExactNotifications, forall_split_split]
  refine forall₃_congr fun before plans after => forall_congr' fun hticks => ?_
  change _ = sentKeys (changedKeys (before.getLast?.getD []) plans) ↔ _
  rw [(planTick_spec (remembers_planTicks before) plans).2, sentKeys_inj, changedKeys,
    reportedKeys_eq_iff (hkeys plans (by simp [hticks]))]
  simp only [decide_eq_true_iff]

/-- In a run, the clients are told at every tick exactly which plans are new or changed if and only if
every plan that is loaded is reported rightly. -/
theorem plan_changes_exact_iff (toString : Json → String) (ticks : List (List PlanSnapshot))
    (hkeys : ∀ plans ∈ ticks, (plans.map PlanSnapshot.planKey).Nodup)
    (hprint : ∀ p ∈ ticks.flatten, ∀ q ∈ ticks.flatten,
      toString (normPlan q) = toString (normPlan p) → normPlan q = normPlan p) :
    ExactNotifications toString ticks ↔ AllReportedRightly ticks := by
  rw [exactNotifications_iff hkeys, AllReportedRightly]
  refine forall₅_congr fun before earlier p later after => forall_congr' fun hticks => ?_
  have hknown : FingerprintKnown toString (before.flatten ++ earlier) p ↔
      Recognized (before.flatten ++ earlier) p := by
    rw [FingerprintKnown, Option.map_eq_some_iff, Recognized]
    refine exists_congr fun q => and_congr_right fun hq => ?_
    have hseen : q ∈ before.flatten ++ earlier := (of_mem_lastOfKind hq).1
    have hq' : q ∈ ticks.flatten := by
      rw [hticks, List.flatten_append, List.flatten_cons]
      rcases List.mem_append.mp hseen with h | h <;> simp [h]
    exact ⟨hprint p (by simp [hticks]) q hq', fun heq => congrArg toString heq⟩
  have hplans : ((earlier ++ p :: later).map PlanSnapshot.planKey).Nodup :=
    hkeys _ (by simp [hticks])
  rw [hknown]
  exact reportedRightly_iff (fun plans hmem => hkeys plans (by simp [hticks, hmem])) hplans

end

def pendingTask (taskId : String) : PlanTask := ⟨none, taskId, none, .pending, [], none⟩

def draftPlan (planKey : String) (tasks : List PlanTask) : PlanSnapshot :=
  ⟨"authoring", planKey, .draft, tasks, [], none⟩

/-- A plan that is loaded again with its tasks in another order. -/
theorem plan_changes_exact_reordered :
    ExactNotifications (Json.text fun _ => [])
      [[draftPlan "p" [pendingTask "a", pendingTask "b"]],
        [draftPlan "p" [pendingTask "b", pendingTask "a"]]] := by
  have hunordered : (draftPlan "p" [pendingTask "a", pendingTask "b"]).unordered =
      (draftPlan "p" [pendingTask "b", pendingTask "a"]).unordered := by
    simp [draftPlan, PlanSnapshot.unordered, Multiset.coe_eq_coe, List.Perm.swap]
  have hdistinct : (draftPlan "p" [pendingTask "a", pendingTask "b"]).Distinct :=
    ⟨by decide, by decide, by decide, by decide⟩
  have hnorm := normPlan_eq_of_unordered hdistinct hunordered
  refine (plan_changes_exact_iff _ _ (by decide) ?_).mpr ?_
  · simp [hnorm]
  · rw [← List.singleton_append, allReportedRightly_concat_one, ← List.nil_append [_],
      allReportedRightly_concat_one]
    refine ⟨⟨allReportedRightly_nil, ?_⟩, ?_⟩
    · exact ⟨by simp, by simp, by simp [lastOfKind], by simp [lastOfKind]⟩
    · refine ⟨fun ticks front r back hticks _ q hq => ?_, fun r hr _ hrepeats => ?_,
        fun q hq _ => ?_, fun q hq _ => ?_⟩
      · have hplans : 1 = front.length + (back.length + 1) := by
          simpa using congrArg (fun ticks => ticks.flatten.length - ticks.dropLast.flatten.length) hticks
        have hnone : back = [] := List.eq_nil_of_length_eq_zero (by omega)
        simp [hnone] at hq
      · obtain rfl := List.mem_singleton.mp hr
        exact absurd hdistinct hrepeats
      · simpa [lastOfKind, draftPlan, eq_comm] using hq
      · have hlast : draftPlan "p" [pendingTask "a", pendingTask "b"] = q := by
          simpa [lastOfKind, draftPlan] using hq
        exact hlast ▸ hunordered

/-- Two plans of one kind are reported at every tick. -/
theorem unchanged_plans_reported :
    let plans := [draftPlan "a" [], draftPlan "b" []]
    (plans.map PlanSnapshot.planKey).Nodup ∧
      ¬ ExactNotifications (Json.text fun _ => []) [plans, plans] := by
  refine ⟨by decide, fun h => ?_⟩
  have hkeys : ∀ plans ∈ [[draftPlan "a" [], draftPlan "b" []], [draftPlan "a" [], draftPlan "b" []]],
      (plans.map PlanSnapshot.planKey).Nodup := by decide
  have hfirst := ((exactNotifications_iff hkeys).mp h [[draftPlan "a" [], draftPlan "b" []]] []
    (draftPlan "a" []) [draftPlan "b" []] [] rfl).mpr ⟨_, List.mem_cons_self, rfl, rfl⟩
  have hprinted : semanticPlanFp (Json.text fun _ => []) (draftPlan "b" []) =
      semanticPlanFp (Json.text fun _ => []) (draftPlan "a" []) := Option.some.inj hfirst
  simp only [semanticPlanFp, Json.text, String.ofList_inj, normPlan, draftPlan, sortBy,
    List.map_nil, List.mergeSort_nil] at hprinted
  revert hprinted
  decide

end ReactRuntime.Transport
