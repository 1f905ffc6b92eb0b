import FreshTree.Proofs.OpenCycle

/-!
No tree from before an edit survives the noting of that edit. Moments of the
history say what came before what: a tree carries the moment of its engine call,
and a tree is fresh if that moment lies after every note of its unit.

Four mechanisms keep trees fresh: noting an edit empties the cache of its unit;
a completion needs the generation of the open cycle; a result is judged against
the count of edits; and a foreground tree is installed only if no cycle was
opened since the request decided to parse.
-/

namespace FreshTree

variable {U A : Type}

def Tree.Comes (history : List (Happening U A)) (tree : Tree U A) : Prop :=
  ∃ caller, history[tree.id]? = some (.called caller tree.unit) ∧
    .returned caller (.ok tree.ast) ∈ history

/-- Every edit of `unit` noted before the moment `bound` was noted before `call`. -/
def Follows (history : List (Happening U A)) (unit : U) (bound call : Nat) : Prop :=
  ∀ (moment k : Nat) (edit : Edit U), moment < bound → history[moment]? = some (.noted k edit) →
    edit.unit = unit → moment < call

section Growth

variable {history : List (Happening U A)} {happening : Happening U A} {unit : U} {bound call : Nat}

theorem entry_grow {entry : Happening U A} {moment : Nat} (found : history[moment]? = some entry) :
    (history ++ [happening])[moment]? = some entry :=
  entry_append.mpr (Or.inl found)

theorem Tree.Comes.grow {tree : Tree U A} (comes : tree.Comes history) (happening : Happening U A) :
    tree.Comes (history ++ [happening]) := by
  obtain ⟨caller, called, returned⟩ := comes
  exact ⟨caller, entry_grow called, List.mem_append_left _ returned⟩

theorem Follows.of_le (later : bound ≤ call) : Follows history unit bound call :=
  fun _ _ _ before _ _ => Nat.lt_of_lt_of_le before later

theorem Follows.mono {more : Nat} (follows : Follows history unit more call) (less : bound ≤ more) :
    Follows history unit bound call :=
  fun moment k edit before => follows moment k edit (Nat.lt_of_lt_of_le before less)

theorem Follows.grow (follows : Follows history unit bound call) (past : bound ≤ history.length) :
    Follows (history ++ [happening]) unit bound call := by
  intro moment k edit before note same
  refine follows moment k edit before ?_ same
  rw [List.getElem?_append_left (Nat.lt_of_lt_of_le before past)] at note
  exact note

theorem Follows.extend (follows : Follows history unit history.length call)
    (other : ∀ k edit, happening = .noted k edit → edit.unit ≠ unit) :
    Follows (history ++ [happening]) unit (history ++ [happening]).length call := by
  intro moment k edit _ note same
  rcases entry_append.mp note with before | ⟨_, now⟩
  · exact follows moment k edit (List.getElem?_eq_some_iff.mp before).1 before same
  · exact absurd same (other k edit now)

theorem callMoment?_of_mem {caller : Caller} (called : .called caller unit ∈ history) :
    ∃ moment, callMoment? history caller = some moment := by
  cases found : callMoment? history caller with
  | none => exact absurd called (callMoment?_none found unit)
  | some moment => exact ⟨moment, rfl⟩

end Growth

/-- How the open cycle may have changed while one thing happened: within one
generation it is never reopened, and edits only join it. -/
structure Passes (p q : Provider U A) (happening : Happening U A) : Prop where
  le : p.generation.toNat ≤ q.generation.toNat
  running : q.generation = p.generation →
    ∀ unit, q.cycles.running = some unit → p.cycles.running = some unit
  joined : q.generation = p.generation →
    ∀ k edit, happening = .noted k edit → p.cycles.running = some edit.unit

theorem Provider.OpensNone.passes {p q : Provider U A} {happening : Happening U A}
    (opens : p.OpensNone q) (quiet : ∀ k edit, happening ≠ .noted k edit) :
    Passes p q happening where
  le := Nat.le_of_eq (by rw [opens.generation])
  running := fun _ => opens.running
  joined := fun _ k edit is => absurd is (quiet k edit)

theorem Tracked.passes [DecidableEq U] {edits k : Nat} {history : List (Happening U A)}
    {p : Provider U A} (tracked : Tracked edits history p) (few : edits + 1 < UInt64.size) (unit : U)
    (stamp : UInt64) :
    Passes p ({ p with cycles := p.cycles.begin unit }.invalidate unit)
      (.noted k ⟨unit, (p.cycles.begin unit).generation, stamp⟩) := by
  have joined : (p.cycles.begin unit).generation = p.generation →
      p.cycles.running = some unit := by
    intro same
    rw [Cycles.begin_generation] at same
    split at same
    · assumption
    · exact absurd same p.generation.next_ne
  constructor
  case le => simpa [Provider.generation] using (tracked.begin_le few unit).1
  case running =>
    intro same other busy
    simp only [Provider.generation, Provider.invalidate_cycles] at same busy
    rw [Cycles.begin_running] at busy
    rw [← busy]
    exact joined same
  case joined =>
    intro same _ _ is
    simp only [Provider.generation, Provider.invalidate_cycles] at same
    cases is
    exact joined same

/-- Whether a tree parsed since the generation `since` may still be installed,
and then its call followed all edits of its unit. -/
def QuietSince (history : List (Happening U A)) (p : Provider U A) (unit : U) (since : Generation)
    (call : Nat) : Prop :=
  p.generation = since →
    p.cycles.running ≠ some unit ∧ Follows history unit history.length call

theorem QuietSince.grow {history : List (Happening U A)} {p q : Provider U A} {unit : U}
    {since : Generation} {call : Nat} {happening : Happening U A}
    (quiet : QuietSince history p unit since call) (passes : Passes p q happening)
    (le : since.toNat ≤ p.generation.toNat) : QuietSince (history ++ [happening]) q unit since call := by
  intro current
  -- Generations do not come back, so that of `since` was current all along.
  have before : p.generation = since := by
    have le' := passes.le
    rw [current] at le'
    exact Generation.toNat_inj (Nat.le_antisymm le' le)
  have same : q.generation = p.generation := current.trans before.symm
  obtain ⟨free, follows⟩ := quiet before
  refine ⟨fun busy => free (passes.running same unit busy), follows.extend fun k edit is mine => ?_⟩
  exact free (mine ▸ passes.joined same k edit is)

theorem QuietSince.later {history : List (Happening U A)} {p : Provider U A} {unit : U}
    {since : Generation} {call later : Nat} (quiet : QuietSince history p unit since call)
    (le : call ≤ later) : QuietSince history p unit since later := by
  intro current
  obtain ⟨free, follows⟩ := quiet current
  exact ⟨free, fun moment k edit before note same =>
    Nat.lt_of_lt_of_le (follows moment k edit before note same) le⟩

def Happening.IsApart (i : Nat) : Happening U A → Prop
  | .asked other _ _ | .called (.request other) _ | .returned (.request other) _ => other ≠ i
  | _ => True

inductive Stage.Holds (history : List (Happening U A)) (p : Provider U A) (i : Nat) (unit : U) :
    Stage U A → Prop where
  | validating :
      (∀ other, .called (.request i) other ∉ history) → Holds history p i unit .validating
  | blocked {slice : Instant} :
      (∀ other, .called (.request i) other ∉ history) → Holds history p i unit (.blocked slice)
  | detached : Holds history p i unit (.parsing .detached)
  | foreground {since : Generation} :
      since.toNat ≤ p.generation.toNat → QuietSince history p unit since history.length →
      (∀ call, callMoment? history (.request i) = some call →
        QuietSince history p unit since call) →
      Holds history p i unit (.parsing (.foreground since))
  | installing {tree : Tree U A} {since : Generation} :
      tree.unit = unit → history[tree.id]? = some (.called (.request i) unit) →
      .returned (.request i) (.ok tree.ast) ∈ history → since.toNat ≤ p.generation.toNat →
      QuietSince history p unit since tree.id → Holds history p i unit (.installing tree since)
  | refused : Holds history p i unit (.answered none)
  | served {tree : Tree U A} :
      tree.unit = unit → tree.Comes history →
      (∀ (asked : Nat) (other : U) (policy : Policy),
        history[asked]? = some (.asked i other policy) → Follows history unit asked tree.id) →
      Holds history p i unit (.answered (some tree))

structure Request.Account (history : List (Happening U A)) (p : Provider U A) (i : Nat)
    (r : Request U A) : Prop where
  asked : ∀ (moment : Nat) (unit : U) (policy : Policy),
    history[moment]? = some (.asked i unit policy) → unit = r.unit
  called : ∀ (moment : Nat) (unit : U), history[moment]? = some (.called (.request i) unit) →
    unit = r.unit ∧ ∀ (asked : Nat) (other : U) (policy : Policy),
      history[asked]? = some (.asked i other policy) → asked < moment
  holds : r.stage.Holds history p i r.unit

theorem callMoment?_grow {history : List (Happening U A)} {caller : Caller}
    {happening : Happening U A} (other : happening.isCallOf caller = false) :
    callMoment? (history ++ [happening]) caller = callMoment? history caller := by
  simp [callMoment?, List.findIdx?_append, other]

section Apart

variable {history : List (Happening U A)} {p q : Provider U A} {i : Nat} {happening : Happening U A}

theorem entry_of_apart {entry : Happening U A} {moment : Nat} (apart : happening.IsApart i)
    (found : (history ++ [happening])[moment]? = some entry) (mine : ¬ entry.IsApart i) :
    history[moment]? = some entry := by
  refine entry_before found ?_
  rintro rfl
  exact mine apart

theorem Happening.IsApart.isCallOf (apart : happening.IsApart i) :
    happening.isCallOf (.request i) = false := by
  cases happening with
  | called caller unit =>
    cases caller with
    | request other => simpa [isCallOf, IsApart] using apart
    | job => rfl
  | _ => rfl

/-- A stage is not disturbed by what others do. -/
theorem Stage.Holds.keep {unit : U} {stage : Stage U A} (holds : stage.Holds history p i unit)
    (passes : Passes p q happening) (apart : happening.IsApart i) :
    stage.Holds (history ++ [happening]) q i unit := by
  have never : (∀ other, .called (.request i) other ∉ history) →
      ∀ other, .called (.request i) other ∉ history ++ [happening] := by
    intro uncalled other member
    rcases mem_grown.mp member with before | rfl
    · exact uncalled other before
    · exact absurd rfl apart
  cases holds with
  | validating uncalled => exact .validating (never uncalled)
  | blocked uncalled => exact .blocked (never uncalled)
  | detached => exact .detached
  | foreground le quiet calls =>
    refine .foreground (Nat.le_trans le passes.le) ?_ fun call found => ?_
    · -- A call that was not made yet comes later than all that happens before it.
      exact (quiet.grow passes le).later (by simp)
    · rw [callMoment?_grow apart.isCallOf] at found
      exact (calls call found).grow passes le
  | installing mine called returned le quiet =>
    exact .installing mine (entry_grow called) (List.mem_append_left _ returned)
      (Nat.le_trans le passes.le) (quiet.grow passes le)
  | refused => exact .refused
  | served mine comes follows =>
    refine .served mine (comes.grow happening) fun asked other policy entry => ?_
    have before := entry_of_apart apart entry (absurd rfl ·)
    exact (follows asked other policy before).grow
      (Nat.le_of_lt (List.getElem?_eq_some_iff.mp before).1)

theorem Request.Account.keep {r : Request U A} (account : r.Account history p i)
    (passes : Passes p q happening) (apart : happening.IsApart i) :
    r.Account (history ++ [happening]) q i where
  asked := fun moment unit policy entry =>
    account.asked moment unit policy (entry_of_apart apart entry (absurd rfl ·))
  called := by
    intro moment unit entry
    have before := entry_of_apart apart entry (absurd rfl ·)
    obtain ⟨mine, later⟩ := account.called moment unit before
    exact ⟨mine, fun asked other policy entry' =>
      later asked other policy (entry_of_apart apart entry' (absurd rfl ·))⟩
  holds := account.holds.keep passes apart

end Apart

def CacheFresh (history : List (Happening U A)) (p : Provider U A) : Prop :=
  ∀ tree, p.cached = some tree →
    tree.Comes history ∧ Follows history tree.unit history.length tree.id

namespace Request.Account

variable {history : List (Happening U A)} {p q : Provider U A} {i : Nat} {r after : Request U A}
  {happening : Happening U A}

theorem look [DecidableEq U] (account : r.Account history p i) (fresh : CacheFresh history p)
    (looking : r.stage = .validating) (unit : after.unit = r.unit)
    (sight : Sight p r.unit after.stage) :
    after.Account (history ++ [.looked i]) p i := by
  have passes : Passes p p (.looked i : Happening U A) := (Provider.OpensNone.refl p).passes nofun
  have past : r.Account (history ++ [.looked i]) p i := account.keep passes trivial
  have uncalled : ∀ other, .called (.request i) other ∉ history ++ [.looked i] := by
    have holds := account.holds
    rw [looking] at holds
    cases holds with
    | validating uncalled => simpa using uncalled
  refine ⟨unit ▸ past.asked, unit ▸ past.called, ?_⟩
  rw [unit]
  generalize after.stage = stage at sight
  cases sight with
  | again => exact .validating uncalled
  | asleep => exact .blocked uncalled
  | refused => exact .refused
  | served cached mine =>
    obtain ⟨comes, follows⟩ := fresh _ cached
    refine .served mine (comes.grow _) fun asked other policy entry => ?_
    have before := entry_before entry (by simp)
    have early := Nat.le_of_lt (List.getElem?_eq_some_iff.mp before).1
    exact mine ▸ (follows.mono early).grow early
  | detached => exact .detached
  | foreground nothing free =>
    refine .foreground (Nat.le_refl _) (fun _ => ⟨free, .of_le (Nat.le_refl _)⟩) fun call found => ?_
    -- A request that still looks at the provider has called nothing.
    obtain ⟨other, entry⟩ := callMoment?_some found
    exact absurd (List.mem_of_getElem? entry) (uncalled other)

theorem call (account : r.Account history p i) {purpose : Purpose}
    (parsing : r.stage = .parsing purpose) (new : callMoment? history (.request i) = none) :
    r.Account (history ++ [.called (.request i) r.unit]) p i := by
  have passes : Passes p p (.called (.request i) r.unit : Happening U A) :=
    (Provider.OpensNone.refl p).passes nofun
  refine ⟨fun moment unit policy entry =>
    account.asked moment unit policy (entry_before entry (by simp)), ?_, ?_⟩
  · intro moment unit entry
    rcases entry_append.mp entry with before | ⟨rfl, now⟩
    · exact absurd (List.mem_of_getElem? before) (callMoment?_none new unit)
    · cases now
      refine ⟨rfl, fun early other policy entry' => ?_⟩
      exact (List.getElem?_eq_some_iff.mp (entry_before entry' (by simp))).1
  · have holds := account.holds
    rw [parsing] at holds ⊢
    cases holds with
    | detached => exact .detached
    | foreground le quiet calls =>
      have grown := quiet.grow passes le
      refine .foreground le (grown.later (by simp)) fun call found => ?_
      obtain ⟨unit, entry⟩ := callMoment?_some found
      rcases entry_append.mp entry with before | ⟨rfl, _⟩
      · exact absurd (List.mem_of_getElem? before) (callMoment?_none new unit)
      · exact grown

theorem finish (account : r.Account history p i) {purpose : Purpose} {id : Nat}
    {result : Except ParseFailure A} (parsing : r.stage = .parsing purpose)
    (called : callMoment? history (.request i) = some id) (unit : after.unit = r.unit)
    (outlook : Outlook id r.unit purpose result after.stage) :
    after.Account (history ++ [.returned (.request i) result]) p i := by
  have passes : Passes p p (.returned (.request i) result : Happening U A) :=
    (Provider.OpensNone.refl p).passes nofun
  obtain ⟨other, entry⟩ := callMoment?_some called
  obtain ⟨rfl, later⟩ := account.called id other entry
  have returned : .returned (.request i) result ∈ history ++ [.returned (.request i) result] := by
    simp
  constructor
  · intro moment other policy entry'
    rw [unit]
    exact account.asked moment other policy (entry_before entry' (by simp))
  · intro moment other entry'
    obtain ⟨mine, later'⟩ := account.called moment other (entry_before entry' (by simp))
    exact ⟨mine.trans unit.symm, fun early _ policy entry'' =>
      later' early _ policy (entry_before entry'' (by simp))⟩
  · rw [unit]
    have holds := account.holds
    rw [parsing] at holds
    generalize after.stage = stage at outlook
    cases outlook with
    | refused => exact .refused
    | detached =>
      refine .served rfl ⟨_, entry_grow entry, returned⟩ fun early _ policy entry' => ?_
      exact .of_le (Nat.le_of_lt (later early _ policy (entry_before entry' (by simp))))
    | foreground =>
      cases holds with
      | foreground le quiet calls =>
        exact .installing rfl (entry_grow entry) returned le ((calls id called).grow passes le)

theorem offer [DecidableEq U] (account : r.Account history p i) {tree : Tree U A}
    {since : Generation} (ready : r.stage = .installing tree since) (unit : after.unit = r.unit)
    (answered : after.stage = .answered none ∨ after.stage = .answered (some tree))
    (opens : p.OpensNone q) : after.Account (history ++ [.offered i]) q i := by
  have past : r.Account (history ++ [.offered i]) q i := account.keep (opens.passes nofun) trivial
  have holds := past.holds
  rw [ready] at holds
  refine ⟨unit ▸ past.asked, unit ▸ past.called, ?_⟩
  rw [unit]
  rcases answered with stage | stage
  · rw [stage]
    exact .refused
  · rw [stage]
    cases holds with
    | installing mine called returned =>
      refine .served mine ⟨_, mine ▸ called, returned⟩ fun asked _ policy entry => ?_
      -- Its own call came after it was asked, so after all edits from before.
      exact .of_le (Nat.le_of_lt ((past.called _ _ called).2 asked _ policy entry))

theorem move [DecidableEq U] (account : r.Account history p i) (fresh : CacheFresh history p)
    (effect : r.Effect (callMoment? history (.request i)) i p after q happening) :
    after.Account (history ++ [happening]) q i := by
  cases effect with
  | looked looking unit sight => exact account.look fresh looking unit sight
  | woken asleep =>
    have passes : Passes p p (.woken i : Happening U A) := (Provider.OpensNone.refl p).passes nofun
    have past : r.Account (history ++ [.woken i]) p i := account.keep passes trivial
    have holds := past.holds
    rw [asleep] at holds
    refine ⟨past.asked, past.called, ?_⟩
    cases holds with
    | blocked uncalled => exact .validating uncalled
  | called parsing new => exact account.call parsing new
  | returned parsing called unit outlook => exact account.finish parsing called unit outlook
  | offered ready unit answered installed =>
    have effect : r.Effect (callMoment? history (.request i)) i p after q (.offered i) :=
      .offered ready unit answered installed
    exact account.offer ready unit answered effect.opensNone

theorem start (limits : Limits) (now : Instant) (unit : U) (policy : Policy)
    (unknown : ∀ happening ∈ history, happening.IsApart i) :
    (Request.start limits now unit policy : Request U A).Account
      (history ++ [.asked i unit policy]) p i where
  asked := by
    intro moment other policy' entry
    rcases entry_append.mp entry with before | ⟨_, now⟩
    · exact absurd rfl (unknown _ (List.mem_of_getElem? before))
    · cases now
      rfl
  called := by
    intro moment other entry
    rcases entry_append.mp entry with before | ⟨_, now⟩
    · exact absurd rfl (unknown _ (List.mem_of_getElem? before))
    · cases now
  holds := by
    apply Stage.Holds.validating
    intro other member
    rcases mem_grown.mp member with before | now
    · exact absurd rfl (unknown _ before)
    · cases now

end Request.Account

namespace CacheFresh

variable {history : List (Happening U A)} {p q : Provider U A} {happening : Happening U A}

theorem keep (fresh : CacheFresh history p) (adds : p.AddsNone q)
    (other : ∀ tree, q.cached = some tree →
      ∀ k edit, happening = .noted k edit → edit.unit ≠ tree.unit) :
    CacheFresh (history ++ [happening]) q := by
  intro tree cached
  obtain ⟨comes, follows⟩ := fresh tree (adds tree cached)
  exact ⟨comes.grow happening, follows.extend (other tree cached)⟩

/-- A foreground tree is installed only if its call followed all edits. -/
theorem request [DecidableEq U] {called : Option Nat} {i : Nat} {r after : Request U A}
    (fresh : CacheFresh history p) (account : r.Account history p i)
    (effect : r.Effect called i p after q happening) : CacheFresh (history ++ [happening]) q := by
  cases effect with
  | looked | woken | called | returned => exact fresh.keep (fun _ cached => cached) (fun _ _ => nofun)
  | offered ready _ _ installed =>
    rcases installed with rfl | installed
    · exact fresh.keep (fun _ cached => cached) (fun _ _ => nofun)
    · obtain ⟨_, _, current, _, rfl⟩ := Provider.installForeground?_some installed
      have holds := account.holds
      rw [ready] at holds
      intro tree cached
      cases cached
      cases holds with
      | installing mine called returned _ quiet =>
        refine ⟨⟨_, entry_grow (mine ▸ called), List.mem_append_left _ returned⟩, ?_⟩
        exact (mine ▸ (quiet current).2).extend nofun

/-- A result that is not outdated comes from a call that followed all edits. -/
theorem judge [DecidableEq U] {k : Nat} {r : Reconciler U A} {taken : Taken U A}
    (fresh : CacheFresh history p) (ledger : Ledger history k r) (held : r.taken = some taken)
    (current : r.noted = taken.stamp)
    (alone : ∀ (moment other : Nat) (edit : Edit U),
      history[moment]? = some (.noted other edit) → other = k) :
    CacheFresh (history ++ [.worked k (.judge taken)])
      (p.complete (Reconciler.treeId history k (.judge taken)) taken.parsed.result.toOption
        taken.parsed.unit taken.parsed.generation).provider := by
  intro tree cached
  rcases Provider.complete_cached cached with before | ⟨content, result, rfl⟩
  · obtain ⟨comes, follows⟩ := fresh tree before
    exact ⟨comes.grow _, follows.extend nofun⟩
  · have returned := ledger.taken_returned taken held
    obtain ⟨moment, found⟩ := callMoment?_of_mem returned.called
    obtain ⟨unit, entry⟩ := callMoment?_some found
    have same : Reconciler.treeId history k (.judge taken) = moment := by
      simp [Reconciler.treeId, found]
    obtain ⟨edit, launched, mine⟩ := ledger.called_launched _ _ (List.mem_of_getElem? entry)
    -- One sequence number, one edit: the call was made for the unit of the result.
    have only := (ledger.launched_apart _ _ _ _ launched (ledger.taken_launched taken held)).mp rfl
    subst only
    cases mine
    rw [same]
    constructor
    · refine ⟨_, entry_grow entry, List.mem_append_left _ ?_⟩
      have parsed := returned.returned
      cases outcome : taken.parsed.result with
      | error why => simp [outcome, Except.toOption] at result
      | ok ast =>
        rw [outcome] at parsed result
        cases result
        exact parsed
    · refine Follows.extend (fun earlier other edit _ note _ => ?_) nofun
      obtain rfl := alone earlier other edit note
      exact ledger.called_after moment _ _ _ entry launched current earlier edit note

theorem reconciler [DecidableEq U] {k : Nat} {r after : Reconciler U A}
    (fresh : CacheFresh history p) (ledger : Ledger history k r)
    (effect : r.Effect history k p after q happening)
    (alone : ∀ (moment other : Nat) (edit : Edit U),
      history[moment]? = some (.noted other edit) → other = k) :
    CacheFresh (history ++ [happening]) q := by
  cases effect with
  | @noted unit edit _ _ same =>
    refine fresh.keep (fun tree cached => (Provider.invalidate_cached cached).1) ?_
    intro tree cached _ _ is mine
    cases is
    rw [same] at mine
    exact (Provider.invalidate_cached cached).2 mine.symm
  | judged held _ current => exact fresh.judge ledger held current alone
  | refused | called | returned | launched | took | outdated =>
    exact fresh.keep (fun _ cached => cached) (fun _ _ => nofun)
  | kept _ _ _ plain | killed _ _ plain =>
    exact fresh.keep (fun _ cached => cached) fun _ _ k edit is =>
      absurd is ((plain.isAside k).ne_noted edit)
  | forsook _ _ _ _ plain =>
    refine fresh.keep (fun tree cached => ?_) fun _ _ k edit is =>
      absurd is ((plain.isAside k).ne_noted edit)
    rcases Provider.complete_cached cached with before | ⟨content, nothing, _⟩
    · exact before
    · cases nothing

end CacheFresh

theorem Happening.IsPlain.isApart {happening : Happening U A} (plain : happening.IsPlain)
    (i : Nat) : happening.IsApart i := by
  cases happening <;> trivial

theorem Request.Effect.isApart [DecidableEq U] {called : Option Nat} {i : Nat} {p q : Provider U A}
    {r after : Request U A} {happening : Happening U A}
    (effect : r.Effect called i p after q happening) {other : Nat} (apart : other ≠ i) :
    happening.IsApart other := by
  cases effect with
  | called | returned => exact Ne.symm apart
  | looked | woken | offered => trivial

theorem Reconciler.Effect.isApart [DecidableEq U] {history : List (Happening U A)} {k : Nat}
    {p q : Provider U A} {r after : Reconciler U A} {happening : Happening U A}
    (effect : r.Effect history k p after q happening) (i : Nat) : happening.IsApart i := by
  cases effect with
  | forsook _ _ _ _ plain | kept _ _ _ plain | killed _ _ plain => exact plain.isApart i
  | _ => trivial

theorem Reconciler.Effect.passes [DecidableEq U] {edits k : Nat} {history : List (Happening U A)}
    {p q : Provider U A} {r after : Reconciler U A} {happening : Happening U A}
    (effect : r.Effect history k p after q happening) (tracked : Tracked edits history p)
    (few : happening.isEdit = true → edits + 1 < UInt64.size) : Passes p q happening := by
  by_cases note : ∃ edit, happening = .noted k edit
  · obtain ⟨edit, rfl⟩ := note
    cases effect with
    | noted _ _ same =>
      subst same
      exact tracked.passes (few rfl) _ _
    | forsook _ _ _ _ plain | kept _ _ _ plain | killed _ _ plain => cases plain
  · have quiet : ∀ edit, happening ≠ .noted k edit := fun edit is => note ⟨edit, is⟩
    apply (effect.opensNone quiet).passes
    intro other edit is
    by_cases here : other = k
    · exact quiet edit (here ▸ is)
    · exact (effect.aside here).ne_noted edit is

/-- What holds of trees and requests after every run with one reconciler. -/
structure Fresh (s : System U A) : Prop where
  sound : Sound s
  cached : CacheFresh s.history s.provider
  requests : ∀ (i : Nat) (r : Request U A), s.requests[i]? = some r →
    r.Account s.history s.provider i
  unasked : ∀ i, s.requests.length ≤ i → ∀ happening ∈ s.history, happening.IsApart i

namespace Fresh

theorem start : Fresh ({} : System U A) where
  sound := .start
  cached := by simp [CacheFresh]
  requests := by simp
  unasked := by simp

theorem aside {s after : System U A} {happening : Happening U A} (fresh : Fresh s)
    (sound : Sound after) (grown : after.history = s.history ++ [happening])
    (same : after.requests = s.requests)
    (cached : CacheFresh (s.history ++ [happening]) after.provider)
    (passes : Passes s.provider after.provider happening) (apart : ∀ i, happening.IsApart i) :
    Fresh after where
  sound := sound
  cached := grown ▸ cached
  requests := by
    rw [grown, same]
    exact fun i r found => (fresh.requests i r found).keep passes (apart i)
  unasked := by
    rw [grown, same]
    intro i new entry member
    rcases mem_grown.mp member with before | rfl
    · exact fresh.unasked i new entry before
    · exact apart i

variable [DecidableEq U] {limits : Limits} {s after : System U A}

omit [DecidableEq U] in
theorem asked {unit : U} {policy : Policy} {now : Instant} (fresh : Fresh s) (sound : Sound after)
    (grown : after.history = s.history ++ [.asked s.requests.length unit policy])
    (more : after.requests = s.requests ++ [Request.start limits now unit policy])
    (same : after.provider = s.provider) : Fresh after where
  sound := sound
  cached := by
    rw [grown, same]
    exact fresh.cached.keep (fun _ cached => cached) (fun _ _ => nofun)
  requests := by
    intro i r found
    rw [grown, same]
    rw [more] at found
    rcases entry_append.mp found with before | ⟨rfl, rfl⟩
    · have short := (List.getElem?_eq_some_iff.mp before).1
      have passes : Passes s.provider s.provider (.asked s.requests.length unit policy) :=
        (Provider.OpensNone.refl _).passes nofun
      exact (fresh.requests i r before).keep passes (Nat.ne_of_gt short)
    · exact .start limits now unit policy (fresh.unasked _ (Nat.le_refl _))
  unasked := by
    rw [grown, more]
    intro i new entry member
    rw [List.length_append, List.length_singleton] at new
    rcases mem_grown.mp member with before | rfl
    · exact fresh.unasked i (Nat.le_of_succ_le new) entry before
    · exact Nat.ne_of_lt new

theorem request {i : Nat} {r next : Request U A} {happening : Happening U A} (fresh : Fresh s)
    (sound : Sound after) (grown : after.history = s.history ++ [happening])
    (set : after.requests = s.requests.set i next) (found : s.requests[i]? = some r)
    (effect : r.Effect (callMoment? s.history (.request i)) i s.provider next after.provider
      happening) : Fresh after where
  sound := sound
  cached := by
    rw [grown]
    exact fresh.cached.request (fresh.requests i r found) effect
  requests := by
    intro j r' found'
    rw [grown]
    rw [set] at found'
    rcases getElem?_set_cases found found' with ⟨rfl, rfl⟩ | ⟨apart, before⟩
    · exact (fresh.requests j r found).move fresh.cached effect
    · have passes : Passes s.provider after.provider happening :=
        effect.opensNone.passes fun k => (effect.isAside k).ne_noted
      exact (fresh.requests j r' before).keep passes (effect.isApart apart)
  unasked := by
    rw [grown, set, List.length_set]
    intro j new entry member
    have inside := (List.getElem?_eq_some_iff.mp found).1
    rcases mem_grown.mp member with before | rfl
    · exact fresh.unasked j new entry before
    · exact effect.isApart (by omega)

theorem change (fresh : Fresh s) (change : s.Change limits after) (few : after.edits < UInt64.size)
    (alone : after.reconcilers.length ≤ 1) : Fresh after := by
  have sound := fresh.sound.change change few
  cases change with
  | outside opens adds plain =>
    have quiet : ∀ k edit, _ ≠ Happening.noted k edit := fun k => (plain.isAside k).ne_noted
    exact fresh.aside sound rfl rfl
      (fresh.cached.keep adds fun _ _ k edit is => absurd is (quiet k edit)) (opens.passes quiet)
      plain.isApart
  | asked => exact fresh.asked sound rfl rfl rfl
  | request found effect => exact fresh.request sound rfl rfl found effect
  | spawned =>
    exact fresh.aside sound rfl rfl (fresh.cached.keep (fun _ cached => cached) fun _ _ => nofun)
      ((Provider.OpensNone.refl _).passes nofun) fun _ => trivial
  | @moved k r move step happening found mine moved =>
    have effect := Reconciler.move?_effect moved
    have inside := (List.getElem?_eq_some_iff.mp found).1
    rw [System.edits_append (s := s) rfl] at few
    refine fresh.aside sound rfl rfl (fresh.cached.reconciler (fresh.sound.ledger k r found) effect ?_)
      (effect.passes fresh.sound.tracked fun edit => by simpa [edit] using few) effect.isApart
    intro moment other edit note
    change (s.reconcilers.set k step.reconciler).length ≤ 1 at alone
    rw [List.length_set] at alone
    by_cases mine : other = k
    · exact mine
    · exact absurd rfl (fresh.sound.unknown other (by omega) _ (List.mem_of_getElem? note))

end Fresh

theorem System.Change.reconcilers_le [DecidableEq U] {limits : Limits} {s after : System U A}
    (change : s.Change limits after) : s.reconcilers.length ≤ after.reconcilers.length := by
  cases change with
  | outside | asked | request => exact Nat.le_refl _
  | spawned => simp [System.record]
  | moved => simp [System.record]

theorem Reaches.fresh [DecidableEq U] {limits : Limits} {s : System U A}
    (reaches : Reaches limits Act.IsInternal {} s) (few : s.edits < UInt64.size)
    (alone : s.reconcilers.length ≤ 1) : Fresh s := by
  refine reaches.invariant (motive := fun s => s.reconcilers.length ≤ 1 → Fresh s) few
    (fun _ => .start) ?_ alone
  intro before after fresh change few alone
  exact (fresh (Nat.le_trans change.reconcilers_le alone)).change change few alone

/-- With one reconciler at most, every tree is fresh. A cached tree comes from an
engine call that started after the latest edit of its unit was noted, and a tree
that answers a request comes from an engine call that started after every edit
of its unit that was noted before the request was made. -/
theorem trees_fresh [DecidableEq U] {limits : Limits} {s : System U A}
    (reaches : Reaches limits Act.IsInternal {} s) (few : s.edits < UInt64.size)
    (alone : s.reconcilers.length ≤ 1) :
    (∀ tree, s.provider.cached = some tree →
        tree.Comes s.history ∧ Follows s.history tree.unit s.history.length tree.id) ∧
      ∀ (asked i : Nat) (unit : U) (policy : Policy) (r : Request U A) (tree : Tree U A),
        s.history[asked]? = some (.asked i unit policy) → s.requests[i]? = some r →
        r.stage = .answered (some tree) →
        tree.unit = unit ∧ tree.Comes s.history ∧ Follows s.history unit asked tree.id := by
  have fresh := reaches.fresh few alone
  constructor
  · exact fresh.cached
  intro asked i unit policy r tree entry found stage
  have account := fresh.requests i r found
  obtain rfl := account.asked asked unit policy entry
  have holds := account.holds
  rw [stage] at holds
  cases holds with
  | served mine comes follows => exact ⟨mine, comes, follows asked r.unit policy entry⟩

def servingRun : List (Act Nat Nat) :=
  [.setActive (some 7), .spawn { debounceMs := 0 }, .reconciler 0 (.note 7), .reconciler 0 .send,
    .reconciler 0 .turn, .reconciler 0 .turn, .reconciler 0 (.call 0),
    .reconciler 0 (.finish 0 (.returned (.ok 5))), .reconciler 0 .turn, .reconciler 0 .turn,
    .ask 7 .noWait, .request 0 (.look false)]

theorem trees_fresh_serving :
    ∃ (s : System Nat Nat) (r : Request Nat Nat) (tree : Tree Nat Nat),
      System.run? ⟨{}, 1000⟩ {} servingRun = some s ∧ s.provider.cached = some tree ∧
        s.requests[0]? = some r ∧ r.stage = .answered (some tree) ∧ tree.Comes s.history ∧
        Follows s.history 7 s.history.length tree.id ∧ Follows s.history 7 10 tree.id := by
  have internal : ∀ act ∈ servingRun, act.IsInternal := by simp [servingRun, Act.IsInternal]
  have ran : System.run? ⟨{}, 1000⟩ {} servingRun =
      some ((System.run? ⟨{}, 1000⟩ {} servingRun).get rfl) := rfl
  have reaches : Reaches ⟨{}, 1000⟩ Act.IsInternal {} _ := Reaches.refl.of_run? internal ran
  have fresh := trees_fresh reaches (by decide) (by decide)
  have cached := fresh.1 _ rfl
  have served := fresh.2 10 0 7 .noWait _ _ rfl rfl rfl
  exact ⟨_, _, _, ran, rfl, rfl, rfl, cached.1, cached.2, served.2.2⟩

end FreshTree
