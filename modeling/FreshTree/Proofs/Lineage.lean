import FreshTree.Proofs.Lifetime

/-!
The way of one parse of a reconciler, from the edit that was noted to the result that the
worker took. Each parse has a number of its own as long as fewer than 2^64 are started; it
is on the pool until it returns, and then its result waits. So the number that a result
bears tells which start it comes from, and which edit.
-/

namespace FreshTree

variable {U A : Type} {history : List (Happening U A)} {k : Nat} {r after : Reconciler U A}
  {did : Reconciler.Move U A} {happening : Happening U A}

/-! How many parses were started, and how many edits noted. -/

def Happening.isLaunchOf (k : Nat) : Happening U A → Bool
  | .launched other _ _ => other = k
  | _ => false

def Happening.isEditOf (k : Nat) : Happening U A → Bool
  | .noted other _ | .refused other _ => other = k
  | _ => false

def launches (history : List (Happening U A)) (k : Nat) : Nat :=
  history.countP (Happening.isLaunchOf k)

def editsOf (history : List (Happening U A)) (k : Nat) : Nat :=
  history.countP (Happening.isEditOf k)

theorem launches_concat (history : List (Happening U A)) (happening : Happening U A) (k : Nat) :
    launches (history ++ [happening]) k =
      launches history k + if happening.isLaunchOf k then 1 else 0 := by
  simp [launches, List.countP_append, List.countP_singleton]

theorem editsOf_concat (history : List (Happening U A)) (happening : Happening U A) (k : Nat) :
    editsOf (history ++ [happening]) k =
      editsOf history k + if happening.isEditOf k then 1 else 0 := by
  simp [editsOf, List.countP_append, List.countP_singleton]

theorem launches_le_concat (history : List (Happening U A)) (happening : Happening U A) (k : Nat) :
    launches history k ≤ launches (history ++ [happening]) k := by
  rw [launches_concat]
  exact Nat.le_add_right _ _

theorem Happening.isLaunchOf_eq_false (other : happening.reconciler? ≠ some k) :
    happening.isLaunchOf k = false := by
  cases happening with
  | launched i => exact decide_eq_false fun same => other (congrArg some same)
  | _ => rfl

theorem Happening.isEditOf_eq_false (other : happening.reconciler? ≠ some k) :
    happening.isEditOf k = false := by
  cases happening with
  | noted i | refused i => exact decide_eq_false fun same => other (congrArg some same)
  | _ => rfl

/-- The counts of a reconciler, which are machine words, and the numbers that it gave. -/
structure Counted (history : List (Happening U A)) (k : Nat) (r : Reconciler U A) : Prop where
  nextSeq : r.nextSeq = UInt64.ofNat (launches history k)
  noted : r.noted = UInt64.ofNat (editsOf history k)
  seq : ∀ i seq edit, history[i]? = some (.launched k seq edit) →
    seq = UInt64.ofNat (launches (history.take i) k)
  stamp : ∀ i edit, history[i]? = some (.noted k edit) →
    edit.stamp = UInt64.ofNat (editsOf (history.take (i + 1)) k)

namespace Counted

theorem spawn (settings : ReconcilerSettings) (horizon : Instant)
    (unknown : ∀ happening ∈ history, happening.reconciler? ≠ some k) :
    Counted (history ++ [.spawned k]) k (Reconciler.spawn settings horizon) where
  nextSeq := by
    have none : launches history k = 0 := List.countP_eq_zero.mpr fun happening member =>
      Bool.eq_false_iff.mp (Happening.isLaunchOf_eq_false (unknown happening member))
    rw [launches_concat, none]
    rfl
  noted := by
    have none : editsOf history k = 0 := List.countP_eq_zero.mpr fun happening member =>
      Bool.eq_false_iff.mp (Happening.isEditOf_eq_false (unknown happening member))
    rw [editsOf_concat, none]
    rfl
  seq := by
    intro i seq edit entry
    exact absurd (List.mem_of_getElem? entry) (notMem_spawned unknown rfl)
  stamp := by
    intro i edit entry
    exact absurd (List.mem_of_getElem? entry) (notMem_spawned unknown rfl)

theorem grow (counted : Counted history k r)
    (nextSeq : after.nextSeq = r.nextSeq + if happening.isLaunchOf k then 1 else 0)
    (noted : after.noted = r.noted + if happening.isEditOf k then 1 else 0)
    (launch : ∀ seq edit, happening = .launched k seq edit → seq = r.nextSeq)
    (edit : ∀ edit, happening = .noted k edit → edit.stamp = r.noted + 1) :
    Counted (history ++ [happening]) k after where
  nextSeq := by
    rw [nextSeq, counted.nextSeq, launches_concat, UInt64.ofNat_add]
    split <;> rfl
  noted := by
    rw [noted, counted.noted, editsOf_concat, UInt64.ofNat_add]
    split <;> rfl
  seq := by
    intro i seq edit entry
    rcases entry_append.mp entry with before | ⟨rfl, now⟩
    · rw [List.take_append_of_le_length (Nat.le_of_lt (List.getElem?_eq_some_iff.mp before).1)]
      exact counted.seq i seq edit before
    · rw [List.take_left, launch seq edit now, counted.nextSeq]
  stamp := by
    intro i other entry
    rcases entry_append.mp entry with before | ⟨rfl, now⟩
    · rw [List.take_append_of_le_length (List.getElem?_eq_some_iff.mp before).1]
      exact counted.stamp i other before
    · have whole : (history ++ [happening]).take (history.length + 1) = history ++ [happening] :=
        List.take_of_length_le (by simp)
      subst now
      rw [whole, edit other rfl, editsOf_concat, counted.noted, UInt64.ofNat_add]
      simp [Happening.isEditOf]

variable [DecidableEq U]

theorem move {now : Instant} {p q : Provider U A} (counted : Counted history k r)
    (conduct : r.Conduct now history k p did after q happening) :
    Counted (history ++ [happening]) k after := by
  cases conduct with
  | noted _ _ same =>
    subst same
    exact counted.grow (by simp [Happening.isLaunchOf]) (by simp [Happening.isEditOf]) nofun
      fun edit told => by cases told; rfl
  | refused =>
    exact counted.grow (by simp [Happening.isLaunchOf]) (by simp [Happening.isEditOf]) nofun nofun
  | launched =>
    exact counted.grow (by simp [Happening.isLaunchOf]) (by simp [Happening.isEditOf])
      (fun seq edit told => by cases told; rfl) nofun
  | _ =>
    refine counted.grow ?_ ?_ ?_ ?_ <;>
      simp [Happening.isLaunchOf, Happening.isEditOf, Reconciler.deliver]

end Counted

/-! Few parses have different numbers. -/

theorem launches_take_lt {i j : Nat} {seq : UInt64} {edit : Edit U}
    (entry : history[i]? = some (.launched k seq edit)) (early : i < j) :
    launches (history.take i) k < launches (history.take j) k := by
  have parts : history.take j = history.take i ++ (history.take j).drop i := by
    have whole := List.take_append_drop i (history.take j)
    rwa [List.take_take, Nat.min_eq_left (Nat.le_of_lt early), eq_comm] at whole
  have inside : Happening.launched k seq edit ∈ (history.take j).drop i := by
    apply List.mem_of_getElem?
    rw [List.getElem?_drop, Nat.add_zero, List.getElem?_take_of_lt early]
    exact entry
  have more : 0 < ((history.take j).drop i).countP (Happening.isLaunchOf k) :=
    List.countP_pos_iff.mpr ⟨_, inside, by simp [Happening.isLaunchOf]⟩
  rw [parts, launches, launches, List.countP_append]
  omega

theorem launches_take_lt_all {i : Nat} {seq : UInt64} {edit : Edit U}
    (entry : history[i]? = some (.launched k seq edit)) :
    launches (history.take i) k < launches history k := by
  have whole := launches_take_lt entry (List.getElem?_eq_some_iff.mp entry).1
  rwa [List.take_length] at whole

namespace Counted

variable {i j : Nat} {seq : UInt64} {edit other : Edit U} (counted : Counted history k r)
  (few : launches history k < UInt64.size)

include counted few

theorem seq_toNat (entry : history[i]? = some (.launched k seq edit)) :
    seq.toNat = launches (history.take i) k := by
  rw [counted.seq i seq edit entry, UInt64.toNat_ofNat']
  exact Nat.mod_eq_of_lt (Nat.lt_trans (launches_take_lt_all entry) few)

theorem nextSeq_toNat : r.nextSeq.toNat = launches history k := by
  rw [counted.nextSeq, UInt64.toNat_ofNat']
  exact Nat.mod_eq_of_lt few

theorem seq_lt (launched : .launched k seq edit ∈ history) : seq.toNat < launches history k := by
  obtain ⟨i, entry⟩ := List.mem_iff_getElem?.mp launched
  rw [counted.seq_toNat few entry]
  exact launches_take_lt_all entry

theorem seq_inj (entry : history[i]? = some (.launched k seq edit))
    (again : history[j]? = some (.launched k seq other)) : i = j := by
  have same := (counted.seq_toNat few entry).symm.trans (counted.seq_toNat few again)
  rcases Nat.lt_trichotomy i j with early | rfl | late
  · exact absurd same (Nat.ne_of_lt (launches_take_lt entry early))
  · rfl
  · exact absurd same.symm (Nat.ne_of_lt (launches_take_lt again late))

end Counted

/-! The pool. -/

/-- A parse that was started is on the pool or has returned, and not both. -/
structure Pool (history : List (Happening U A)) (k : Nat) (r : Reconciler U A) : Prop where
  job : ∀ job ∈ r.jobs, ∃ edit, .launched k job.seq edit ∈ history ∧ edit.unit = job.unit ∧
    edit.generation = job.generation
  returned : ∀ seq result, .returned (.job k seq) result ∈ history →
    (∃ edit, .launched k seq edit ∈ history) ∧ seq ∉ r.jobs.map Job.seq
  held : ∀ seq edit, .launched k seq edit ∈ history →
    seq ∈ r.jobs.map Job.seq ∨ ∃ result, .returned (.job k seq) result ∈ history

namespace Pool

theorem spawn (settings : ReconcilerSettings) (horizon : Instant)
    (unknown : ∀ happening ∈ history, happening.reconciler? ≠ some k) :
    Pool (history ++ [.spawned k]) k (Reconciler.spawn settings horizon) where
  job := nofun
  returned := fun _ _ member => absurd member (notMem_spawned unknown rfl)
  held := fun _ _ member => absurd member (notMem_spawned unknown rfl)

theorem keep (pool : Pool history k r) (same : after.jobs = r.jobs ∨ after.jobs = r.spent)
    (unstarted : ∀ seq edit, happening ≠ .launched k seq edit)
    (unreturned : ∀ seq result, happening ≠ .returned (.job k seq) result) :
    Pool (history ++ [happening]) k after := by
  have seqs : after.jobs.map Job.seq = r.jobs.map Job.seq := by
    rcases same with same | same <;> rw [same]
    exact r.spent_seqs
  refine ⟨fun job member => ?_, fun seq result member => ?_, fun seq edit member => ?_⟩
  · have old : ∃ old ∈ r.jobs, old.seq = job.seq ∧ old.unit = job.unit ∧
        old.generation = job.generation := by
      rcases same with same | same <;> rw [same] at member
      · exact ⟨job, member, rfl, rfl, rfl⟩
      · obtain ⟨old, held, seq, unit, generation, _⟩ := Reconciler.mem_spent member
        exact ⟨old, held, seq, unit, generation⟩
    obtain ⟨old, held, seq, unit, generation⟩ := old
    obtain ⟨edit, launched, hUnit, hGeneration⟩ := pool.job old held
    exact ⟨edit, mem_grown.mpr (Or.inl (seq ▸ launched)), hUnit.trans unit,
      hGeneration.trans generation⟩
  · rcases mem_grown.mp member with before | now
    · obtain ⟨⟨edit, launched⟩, gone⟩ := pool.returned seq result before
      exact ⟨⟨edit, mem_grown.mpr (Or.inl launched)⟩, seqs ▸ gone⟩
    · exact absurd now (unreturned seq result)
  · rcases mem_grown.mp member with before | now
    · rcases pool.held seq edit before with held | ⟨result, returned⟩
      · exact Or.inl (seqs ▸ held)
      · exact Or.inr ⟨result, mem_grown.mpr (Or.inl returned)⟩
    · exact absurd now (unstarted seq edit)

theorem start (pool : Pool history k r) (counted : Counted history k r)
    (few : launches history k < UInt64.size) {edit : Edit U}
    (jobs : after.jobs = r.jobs ++
      [{ seq := r.nextSeq, unit := edit.unit, generation := edit.generation }]) :
    Pool (history ++ [.launched k r.nextSeq edit]) k after := by
  refine ⟨fun job member => ?_, fun seq result member => ?_, fun seq other member => ?_⟩
  · rw [jobs] at member
    rcases List.mem_append.mp member with old | new
    · obtain ⟨other, launched, same⟩ := pool.job job old
      exact ⟨other, mem_grown.mpr (Or.inl launched), same⟩
    · cases List.mem_singleton.mp new
      exact ⟨edit, mem_grown.mpr (Or.inr rfl), rfl, rfl⟩
  · rcases mem_grown.mp member with before | now
    · obtain ⟨⟨other, launched⟩, gone⟩ := pool.returned seq result before
      refine ⟨⟨other, mem_grown.mpr (Or.inl launched)⟩, ?_⟩
      have older := counted.seq_lt few launched
      rw [← counted.nextSeq_toNat few] at older
      have new : seq ≠ r.nextSeq := by
        rintro rfl
        exact Nat.lt_irrefl _ older
      rw [jobs, List.map_append, List.mem_append]
      rintro (old | same)
      · exact gone old
      · exact new (List.mem_singleton.mp same)
    · cases now
  · rw [jobs, List.map_append, List.mem_append]
    rcases mem_grown.mp member with before | now
    · rcases pool.held seq other before with held | ⟨result, returned⟩
      · exact Or.inl (Or.inl held)
      · exact Or.inr ⟨result, mem_grown.mpr (Or.inl returned)⟩
    · cases now
      exact Or.inl (Or.inr List.mem_cons_self)

theorem finish (pool : Pool history k r) {job : Job U} (member : job ∈ r.jobs)
    (result : Except ParseFailure A) :
    Pool (history ++ [.returned (.job k job.seq) result]) k (r.deliver (job.parsed result)) := by
  refine ⟨fun other rest => ?_, fun seq ending entry => ?_, fun seq edit entry => ?_⟩
  · obtain ⟨edit, launched, same⟩ := pool.job other (List.mem_filter.mp rest).1
    exact ⟨edit, mem_grown.mpr (Or.inl launched), same⟩
  · rcases mem_grown.mp entry with before | now
    · obtain ⟨⟨edit, launched⟩, gone⟩ := pool.returned seq ending before
      refine ⟨⟨edit, mem_grown.mpr (Or.inl launched)⟩, fun rest => gone ?_⟩
      exact ((List.filter_sublist).map Job.seq).subset rest
    · cases now
      obtain ⟨edit, launched, _⟩ := pool.job job member
      refine ⟨⟨edit, mem_grown.mpr (Or.inl launched)⟩, fun rest => ?_⟩
      obtain ⟨other, kept, same⟩ := List.mem_map.mp rest
      exact of_decide_eq_true (List.mem_filter.mp kept).2 same
  · rcases mem_grown.mp entry with before | now
    · rcases pool.held seq edit before with held | ⟨other, returned⟩
      · by_cases mine : seq = job.seq
        · subst mine
          exact Or.inr ⟨result, mem_grown.mpr (Or.inr rfl)⟩
        · obtain ⟨other, kept, rfl⟩ := List.mem_map.mp held
          exact Or.inl (List.mem_map.mpr
            ⟨other, List.mem_filter.mpr ⟨kept, decide_eq_true mine⟩, rfl⟩)
      · exact Or.inr ⟨other, mem_grown.mpr (Or.inl returned)⟩
    · cases now

variable [DecidableEq U]

theorem move {now : Instant} {p q : Provider U A} (pool : Pool history k r)
    (counted : Counted history k r) (few : launches history k < UInt64.size)
    (conduct : r.Conduct now history k p did after q happening) :
    Pool (history ++ [happening]) k after := by
  cases conduct with
  | launched => exact pool.start counted few rfl
  | returned member => exact pool.finish member _
  | queued | forsookInflight => exact pool.keep (Or.inr rfl) nofun nofun
  | _ => exact pool.keep (Or.inl rfl) nofun nofun

end Pool

/-! The edits that wait for a parse, and the stops. -/

def Reconciler.Awaits (r : Reconciler U A) (edit : Edit U) : Prop :=
  r.noting = some edit ∨ .edit edit ∈ r.commands ∨ r.pending.map Pending.edit = some edit

structure Waiting (history : List (Happening U A)) (k : Nat) (r : Reconciler U A) : Prop where
  noted : ∀ edit, r.Awaits edit → .noted k edit ∈ history
  stopped : .stopped k ∈ history → r.stopped = true
  left : .worked k .leave ∈ history → r.phase ≠ .running

namespace Reconciler.Conduct

variable [DecidableEq U] {now : Instant} {p q : Provider U A}

theorem awaits (conduct : r.Conduct now history k p did after q happening) {edit : Edit U}
    (awaits : after.Awaits edit) : r.Awaits edit ∨ happening = .noted k edit := by
  unfold Awaits at *
  cases conduct with
  | hastened _ _ _ _ commands =>
    have same : (r.pending.map fun pending => { pending with due := now }).map Pending.edit =
        r.pending.map Pending.edit := by
      cases r.pending <;> rfl
    grind
  | _ => grind [Reconciler.deliver]

theorem stop (conduct : r.Conduct now history k p did after q happening) :
    (r.stopped = true → after.stopped = true) ∧
      (happening = .stopped k → after.stopped = true) := by
  cases conduct with
  | stopped => exact ⟨fun _ => rfl, fun _ => rfl⟩
  | _ => exact ⟨id, nofun⟩

theorem leave (conduct : r.Conduct now history k p did after q happening) :
    (r.phase ≠ .running → after.phase ≠ .running) ∧
      (happening = .worked k .leave → after.phase ≠ .running) := by
  cases conduct with
  | killed | left | closed => exact ⟨fun _ => nofun, fun _ => nofun⟩
  | _ => exact ⟨id, nofun⟩

end Reconciler.Conduct

namespace Waiting

theorem spawn (settings : ReconcilerSettings) (horizon : Instant)
    (unknown : ∀ happening ∈ history, happening.reconciler? ≠ some k) :
    Waiting (history ++ [.spawned k]) k (Reconciler.spawn settings horizon) := by
  refine ⟨fun edit awaits => ?_, fun member => absurd member (notMem_spawned unknown rfl),
    fun member => absurd member (notMem_spawned unknown rfl)⟩
  rcases awaits with noting | queued | pending
  · cases noting
  · cases queued
  · cases pending

theorem aside (waiting : Waiting history k r) (other : happening.reconciler? ≠ some k) :
    Waiting (history ++ [happening]) k r := by
  refine ⟨fun edit awaits => mem_grown.mpr (Or.inl (waiting.noted edit awaits)),
    fun member => ?_, fun member => ?_⟩
  · rcases mem_grown.mp member with before | rfl
    · exact waiting.stopped before
    · exact absurd rfl other
  · rcases mem_grown.mp member with before | rfl
    · exact waiting.left before
    · exact absurd rfl other

theorem move [DecidableEq U] {now : Instant} {p q : Provider U A} (waiting : Waiting history k r)
    (conduct : r.Conduct now history k p did after q happening) :
    Waiting (history ++ [happening]) k after := by
  refine ⟨fun edit awaits => ?_, fun member => ?_, fun member => ?_⟩
  · rcases conduct.awaits awaits with before | now
    · exact mem_grown.mpr (Or.inl (waiting.noted edit before))
    · exact mem_grown.mpr (Or.inr now)
  · rcases mem_grown.mp member with before | now
    · exact conduct.stop.1 (waiting.stopped before)
    · exact conduct.stop.2 now
  · rcases mem_grown.mp member with before | now
    · exact conduct.leave.1 (waiting.left before)
    · exact conduct.leave.2 now

end Waiting

/-! The way of one parse. -/

/-- The parse was started for an edit noted before, and no other edit was taken since. -/
structure Launch (history : List (Happening U A)) (k : Nat) (seq : UInt64) (edit : Edit U)
    (noted started : Nat) : Prop where
  notedAt : history[noted]? = some (.noted k edit)
  startedAt : history[started]? = some (.launched k seq edit)
  afterNoted : noted < started
  unreplaced : ∀ i other, started < i → history[i]? ≠ some (.worked k (.obey (.edit other)))

structure Return (history : List (Happening U A)) (k : Nat) (parsed : Parsed U A) (edit : Edit U)
    (started ended : Nat) : Prop where
  startedAt : history[started]? = some (.launched k parsed.seq edit)
  endedAt : history[ended]? = some (.returned (.job k parsed.seq) parsed.result)
  afterStart : started < ended
  unit : parsed.unit = edit.unit
  generation : parsed.generation = edit.generation

/-- The worker took the result of a parse before anybody told it to stop. -/
structure Lineage (history : List (Happening U A)) (k : Nat) (taken : Taken U A) (edit : Edit U)
    (noted started ended received : Nat) : Prop where
  launch : Launch history k taken.parsed.seq edit noted started
  ending : Return history k taken.parsed edit started ended
  receivedAt : history[received]? = some (.worked k (.receive taken.parsed))
  afterEnd : ended < received
  stamp : taken.stamp = edit.stamp
  unstopped : ∀ i, history[i]? = some (.stopped k) → received < i

structure Traced (history : List (Happening U A)) (k : Nat) (r : Reconciler U A) : Prop where
  inflight : ∀ inflight, r.inflight = some inflight →
    ∃ noted started, Launch history k inflight.seq inflight.edit noted started
  result : ∀ parsed ∈ r.results, ∃ edit started ended, Return history k parsed edit started ended
  taken : ∀ taken, r.taken = some taken →
    ∃ edit noted started ended received, Lineage history k taken edit noted started ended received

theorem entry_grown {i : Nat} {entry : Happening U A} (happening : Happening U A)
    (before : history[i]? = some entry) : (history ++ [happening])[i]? = some entry :=
  entry_append.mpr (Or.inl before)

theorem Launch.grow {seq : UInt64} {edit : Edit U} {noted started : Nat}
    (launch : Launch history k seq edit noted started)
    (unreplaced : ∀ other, happening ≠ .worked k (.obey (.edit other))) :
    Launch (history ++ [happening]) k seq edit noted started where
  notedAt := entry_grown _ launch.notedAt
  startedAt := entry_grown _ launch.startedAt
  afterNoted := launch.afterNoted
  unreplaced := by
    intro i other later entry
    rcases entry_append.mp entry with before | ⟨_, now⟩
    · exact launch.unreplaced i other later before
    · exact unreplaced other now

theorem Return.grow {parsed : Parsed U A} {edit : Edit U} {started ended : Nat}
    (ending : Return history k parsed edit started ended) :
    Return (history ++ [happening]) k parsed edit started ended :=
  { ending with
    startedAt := entry_grown _ ending.startedAt
    endedAt := entry_grown _ ending.endedAt }

theorem Lineage.grow {taken : Taken U A} {edit : Edit U} {noted started ended received : Nat}
    (lineage : Lineage history k taken edit noted started ended received)
    (unreplaced : ∀ other, happening ≠ .worked k (.obey (.edit other))) :
    Lineage (history ++ [happening]) k taken edit noted started ended received where
  launch := lineage.launch.grow unreplaced
  ending := lineage.ending.grow
  receivedAt := entry_grown _ lineage.receivedAt
  afterEnd := lineage.afterEnd
  stamp := lineage.stamp
  unstopped := by
    intro i entry
    rcases entry_append.mp entry with before | ⟨rfl, _⟩
    · exact lineage.unstopped i before
    · exact (List.getElem?_eq_some_iff.mp lineage.receivedAt).1

namespace Traced

theorem keep (traced : Traced history k r)
    (inflight : ∀ inflight, after.inflight = some inflight → r.inflight = some inflight)
    (results : ∀ parsed ∈ after.results, parsed ∈ r.results)
    (taken : ∀ taken, after.taken = some taken → r.taken = some taken)
    (unreplaced : ∀ other, happening = .worked k (.obey (.edit other)) →
      after.inflight = none ∧ after.taken = none) :
    Traced (history ++ [happening]) k after where
  inflight := by
    intro flying flies
    obtain ⟨noted, started, launch⟩ := traced.inflight flying (inflight flying flies)
    refine ⟨noted, started, launch.grow fun other told => ?_⟩
    rw [(unreplaced other told).1] at flies
    cases flies
  result := by
    intro parsed member
    obtain ⟨edit, started, ended, ending⟩ := traced.result parsed (results parsed member)
    exact ⟨edit, started, ended, ending.grow⟩
  taken := by
    intro result held
    obtain ⟨edit, noted, started, ended, received, lineage⟩ := traced.taken result (taken result held)
    refine ⟨edit, noted, started, ended, received, lineage.grow fun other told => ?_⟩
    rw [(unreplaced other told).2] at held
    cases held

theorem start (traced : Traced history k r) {pending : Pending U} {jobs : List (Job U)}
    (waiting : Waiting history k r) (awaiting : r.pending = some pending) (idle : r.taken = none) :
    Traced (history ++ [.launched k r.nextSeq pending.edit]) k
      { r with
        pending := none
        inflight := some ⟨r.nextSeq, pending.edit⟩
        nextSeq := r.nextSeq + 1
        jobs := jobs } where
  inflight := by
    intro inflight flies
    cases flies
    have before := waiting.noted pending.edit (Or.inr (Or.inr (by rw [awaiting]; rfl)))
    obtain ⟨noted, entry⟩ := List.mem_iff_getElem?.mp before
    refine ⟨noted, history.length, entry_grown _ entry, entry_append.mpr (Or.inr ⟨rfl, rfl⟩),
      (List.getElem?_eq_some_iff.mp entry).1, fun i other later entry => ?_⟩
    rcases entry_append.mp entry with before | ⟨rfl, _⟩
    · exact Nat.lt_asymm later (List.getElem?_eq_some_iff.mp before).1
    · exact Nat.lt_irrefl _ later
  result := by
    intro parsed member
    obtain ⟨edit, started, ended, ending⟩ := traced.result parsed member
    exact ⟨edit, started, ended, ending.grow⟩
  taken := by
    intro taken held
    rw [idle] at held
    cases held

theorem finish (traced : Traced history k r) (pool : Pool history k r) {job : Job U}
    (member : job ∈ r.jobs) (result : Except ParseFailure A) :
    Traced (history ++ [.returned (.job k job.seq) result]) k (r.deliver (job.parsed result)) where
  inflight := by
    intro flying flies
    obtain ⟨noted, started, launch⟩ := traced.inflight flying flies
    exact ⟨noted, started, launch.grow nofun⟩
  result := by
    intro parsed waits
    have either : parsed ∈ r.results ∨ parsed = job.parsed result := by
      unfold Reconciler.deliver at waits
      dsimp only at waits
      split at waits
      · simpa using waits
      · exact Or.inl waits
    rcases either with before | rfl
    · obtain ⟨edit, started, ended, ending⟩ := traced.result parsed before
      exact ⟨edit, started, ended, ending.grow⟩
    · obtain ⟨edit, launched, unit, generation⟩ := pool.job job member
      obtain ⟨started, entry⟩ := List.mem_iff_getElem?.mp launched
      exact ⟨edit, started, history.length, entry_grown _ entry,
        entry_append.mpr (Or.inr ⟨rfl, rfl⟩), (List.getElem?_eq_some_iff.mp entry).1, unit.symm,
        generation.symm⟩
  taken := by
    intro taken held
    obtain ⟨edit, noted, started, ended, received, lineage⟩ := traced.taken taken held
    exact ⟨edit, noted, started, ended, received, lineage.grow nofun⟩

theorem take (traced : Traced history k r) (waiting : Waiting history k r)
    (counted : Counted history k r) (few : launches history k < UInt64.size)
    {parsed : Parsed U A} {rest : List (Parsed U A)} {inflight : Inflight U}
    (go : r.stopped = false) (results : r.results = parsed :: rest)
    (flying : r.inflight = some inflight) (same : inflight.seq = parsed.seq) :
    Traced (history ++ [.worked k (.receive parsed)]) k
      { r with results := rest, inflight := none, taken := some ⟨parsed, inflight.edit.stamp⟩ } where
  inflight := nofun
  result := by
    intro other member
    obtain ⟨edit, started, ended, ending⟩ :=
      traced.result other (results ▸ List.mem_cons_of_mem _ member)
    exact ⟨edit, started, ended, ending.grow⟩
  taken := by
    intro taken held
    cases held
    obtain ⟨noted, started, launch⟩ := traced.inflight inflight flying
    obtain ⟨edit, started', ended, ending⟩ :=
      traced.result parsed (results ▸ List.mem_cons_self)
    rw [same] at launch
    -- Two parses with the number of this one would be the same parse.
    cases counted.seq_inj few launch.startedAt ending.startedAt
    have edits := launch.startedAt.symm.trans ending.startedAt
    cases edits
    refine ⟨inflight.edit, noted, started, ended, history.length, launch.grow nofun, ending.grow,
      entry_append.mpr (Or.inr ⟨rfl, rfl⟩), (List.getElem?_eq_some_iff.mp ending.endedAt).1, rfl,
      fun i entry => ?_⟩
    rcases entry_append.mp entry with before | ⟨_, now⟩
    · have stopped := waiting.stopped (List.mem_of_getElem? before)
      rw [go] at stopped
      cases stopped
    · cases now

theorem move [DecidableEq U] {now : Instant} {p q : Provider U A} (traced : Traced history k r)
    (pool : Pool history k r) (waiting : Waiting history k r) (counted : Counted history k r)
    (few : launches history k < UInt64.size)
    (conduct : r.Conduct now history k p did after q happening) :
    Traced (history ++ [happening]) k after := by
  cases conduct with
  | launched _ idle _ _ _ awaiting => exact traced.start waiting awaiting idle
  | returned member => exact traced.finish pool member _
  | took _ _ go results flying same => exact traced.take waiting counted few go results flying same
  | dropped _ _ _ results =>
    exact traced.keep (fun _ => id) (fun _ member => results ▸ List.mem_cons_of_mem _ member)
      (fun _ => id) nofun
  | queued _ idle => exact traced.keep nofun (fun _ => id) (fun _ => id) fun _ _ => ⟨rfl, idle⟩
  | killed => exact traced.keep nofun nofun nofun nofun
  | judged | outdated => exact traced.keep (fun _ => id) (fun _ => id) nofun nofun
  | forsookInflight => exact traced.keep nofun (fun _ => id) (fun _ => id) nofun
  | _ => exact traced.keep (fun _ => id) (fun _ => id) (fun _ => id) nofun

end Traced

end FreshTree
