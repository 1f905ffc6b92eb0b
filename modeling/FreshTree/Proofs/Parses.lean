import FreshTree.Proofs.Delivery
import FreshTree.Proofs.Lineage
import Mathlib.Data.List.Perm.Subperm

/-!
The parses of one reconciler. A parse goes on unhindered only while it is the one in
flight, and that is the latest one. It is in one place at a time, on the pool, among the
results or taken, and it is judged once; what is handed over then is the result of the
latest edit.
-/

namespace FreshTree

variable {U A : Type} {history : List (Happening U A)} {k : Nat} {r after : Reconciler U A}
  {did : Reconciler.Move U A} {happening : Happening U A}

/-! The live parse. -/

/-- At most one parse on the pool goes on, which is the one in flight and the latest. -/
structure Sole (history : List (Happening U A)) (k : Nat) (r : Reconciler U A) : Prop where
  apart : r.pending = none ∨ r.inflight = none
  latest : ∀ inflight, r.inflight = some inflight → inflight.seq.toNat + 1 = launches history k
  live : r.phase ≠ .killed → ∀ job ∈ r.jobs,
    (job.revoked = false ↔ ∃ inflight, r.inflight = some inflight ∧ inflight.seq = job.seq)

namespace Sole

theorem keep (sole : Sole history k r)
    (pending : r.pending = none → after.pending = none) (inflight : after.inflight = r.inflight)
    (jobs : ∀ job ∈ after.jobs, job ∈ r.jobs) (phase : r.phase = .killed → after.phase = .killed)
    (unstarted : happening.isLaunchOf k = false) :
    Sole (history ++ [happening]) k after where
  apart := sole.apart.imp pending inflight.trans
  latest := by
    intro flying flies
    rw [launches_concat, unstarted]
    exact sole.latest flying (inflight ▸ flies)
  live := by
    intro alive job member
    rw [inflight]
    exact sole.live (fun killed => alive (phase killed)) job (jobs job member)

theorem retire (inflight : after.inflight = none)
    (revoked : after.phase ≠ .killed → ∀ job ∈ after.jobs, job.revoked = true) :
    Sole (history ++ [happening]) k after where
  apart := Or.inr inflight
  latest := by
    intro flying flies
    rw [inflight] at flies
    cases flies
  live := by
    intro alive job member
    rw [inflight, revoked alive job member]
    exact ⟨nofun, nofun⟩

theorem spent_revoked (sole : Sole history k r) (alive : r.phase ≠ .killed) {job : Job U}
    (member : job ∈ r.spent) : job.revoked = true := by
  apply Bool.of_not_eq_false
  intro fine
  obtain ⟨old, held, seq, _, _, open_⟩ := Reconciler.mem_spent member
  obtain ⟨live, retired⟩ := open_ fine
  obtain ⟨inflight, flying, same⟩ := (sole.live alive old held).mp live
  exact retired inflight flying (same.trans seq)

theorem start (sole : Sole history k r) (counted : Counted history k r)
    (pool : Pool history k r) (few : launches history k < UInt64.size) {pending : Pending U}
    (running : r.phase = .running) (awaiting : r.pending = some pending) :
    Sole (history ++ [.launched k r.nextSeq pending.edit]) k
      { r with
        pending := none
        inflight := some ⟨r.nextSeq, pending.edit⟩
        nextSeq := r.nextSeq + 1
        jobs := r.jobs ++
          [{ seq := r.nextSeq, unit := pending.edit.unit, generation := pending.edit.generation }] }
    where
  apart := Or.inl rfl
  latest := by
    intro inflight flies
    cases flies
    rw [launches_concat, counted.nextSeq_toNat few]
    simp [Happening.isLaunchOf]
  live := by
    intro _ job member
    -- An edit waits, so nothing is in flight and every older job was told to stop.
    have idle : r.inflight = none := sole.apart.resolve_left (by simp [awaiting])
    rcases List.mem_append.mp member with old | new
    · have retired : ¬ job.revoked = false := fun fine => by
        obtain ⟨inflight, flying, _⟩ := (sole.live (by simp [running]) job old).mp fine
        rw [idle] at flying
        cases flying
      refine ⟨fun fine => absurd fine retired, ?_⟩
      rintro ⟨inflight, flies, same⟩
      cases flies
      -- The numbers of the parses before are smaller.
      obtain ⟨edit, launched, _⟩ := pool.job job old
      have older := counted.seq_lt few launched
      rw [← same, counted.nextSeq_toNat few] at older
      exact absurd older (Nat.lt_irrefl _)
    · cases List.mem_singleton.mp new
      exact ⟨fun _ => ⟨_, rfl, rfl⟩, fun _ => rfl⟩

variable [DecidableEq U]

theorem move {now : Instant} {p q : Provider U A} (sole : Sole history k r)
    (counted : Counted history k r) (pool : Pool history k r) (traced : Traced history k r)
    (few : launches history k < UInt64.size)
    (conduct : r.Conduct now history k p did after q happening) :
    Sole (history ++ [happening]) k after := by
  cases conduct with
  | launched running _ _ _ _ awaiting => exact sole.start counted pool few running awaiting
  | returned =>
    exact sole.keep id rfl (fun job member => (List.mem_filter.mp member).1) id rfl
  | @took parsed rest inflight running idle go results flying same =>
    refine retire rfl fun _ job member => Bool.of_not_eq_false fun fine => ?_
    -- A job with the number of the parse taken would have returned already.
    obtain ⟨edit, started, ended, ending⟩ := traced.result parsed (results ▸ List.mem_cons_self)
    obtain ⟨other, flies, mine⟩ := (sole.live (by simp [running]) job member).mp fine
    rw [flying] at flies
    cases flies
    exact (pool.returned _ _ (List.mem_of_getElem? ending.endedAt)).2
      (List.mem_map.mpr ⟨job, member, mine.symm.trans same⟩)
  | killed => exact retire rfl fun alive => absurd rfl alive
  | queued running =>
    exact retire rfl fun alive _ member => sole.spent_revoked alive member
  | forsookInflight closing =>
    exact retire rfl fun alive _ member => sole.spent_revoked alive member
  | hastened =>
    exact sole.keep (fun none => by rw [none]; rfl) rfl (fun _ => id) id rfl
  | left running => exact sole.keep id rfl (fun _ => id) (fun killed => by simp_all) rfl
  | closed closing => exact sole.keep id rfl (fun _ => id) (fun killed => by simp_all) rfl
  | forsookPending => exact sole.keep (fun _ => rfl) rfl (fun _ => id) id rfl
  | _ => exact sole.keep id rfl (fun _ => id) id rfl

end Sole

/-! One judgement of each parse. -/

def Happening.judged? (k : Nat) : Happening U A → Option UInt64
  | .worked other (.judge taken) => if other = k then some taken.parsed.seq else none
  | _ => none

def judgedSeqs (history : List (Happening U A)) (k : Nat) : List UInt64 :=
  history.filterMap (Happening.judged? k)

theorem judgedSeqs_concat (history : List (Happening U A)) (happening : Happening U A) (k : Nat) :
    judgedSeqs (history ++ [happening]) k = judgedSeqs history k ++ (happening.judged? k).toList := by
  unfold judgedSeqs
  rw [List.filterMap_append]
  cases judged : happening.judged? k <;> simp [judged]

theorem Happening.judged?_eq_none (other : happening.reconciler? ≠ some k) :
    happening.judged? k = none := by
  cases happening with
  | worked i action =>
    cases action with
    | judge => exact if_neg fun same => other (congrArg some same)
    | _ => rfl
  | _ => rfl

def Reconciler.outstanding (r : Reconciler U A) : List UInt64 :=
  r.taken.toList.map (·.parsed.seq) ++ (r.results.map (·.seq) ++ r.jobs.map Job.seq)

/-- A parse stands here once, from its start to its judgement and after. -/
def roster (history : List (Happening U A)) (k : Nat) (r : Reconciler U A) : List UInt64 :=
  judgedSeqs history k ++ r.outstanding

structure Enrolled (history : List (Happening U A)) (k : Nat) (r : Reconciler U A) : Prop where
  once : (roster history k r).Nodup
  known : ∀ seq ∈ roster history k r, seq.toNat < launches history k

theorem roster_finish {job : Job U} (member : job ∈ r.jobs) (result : Except ParseFailure A) :
    (r.deliver (job.parsed result)).outstanding.Subperm r.outstanding := by
  apply (List.subperm_append_left _).mpr
  have rest : ((r.jobs.filter fun other => other.seq ≠ job.seq).map Job.seq).Subperm
      (r.jobs.map Job.seq) := ((List.filter_sublist).map Job.seq).subperm
  have gone : job.seq ∉ (r.jobs.filter fun other => other.seq ≠ job.seq).map Job.seq := by
    intro kept
    obtain ⟨other, kept, same⟩ := List.mem_map.mp kept
    exact of_decide_eq_true (List.mem_filter.mp kept).2 same
  by_cases running : r.phase = .running
  · simp only [Reconciler.deliver, running, if_true, List.map_append, List.append_assoc]
    apply (List.subperm_append_left _).mpr
    exact List.cons_subperm_of_not_mem_of_mem gone (List.mem_map_of_mem member) rest
  · simp only [Reconciler.deliver, running, if_false]
    exact (List.subperm_append_left _).mpr rest

theorem roster_move [DecidableEq U] {now : Instant} {p q : Provider U A}
    (conduct : r.Conduct now history k p did after q happening) :
    happening.isLaunchOf k = true ∧
        roster (history ++ [happening]) k after = roster history k r ++ [r.nextSeq] ∨
      (roster (history ++ [happening]) k after).Subperm (roster history k r) := by
  unfold roster
  rw [judgedSeqs_concat]
  cases conduct with
  | launched => exact Or.inl ⟨decide_eq_true rfl, by simp [Happening.judged?, Reconciler.outstanding]⟩
  | returned member =>
    refine Or.inr ?_
    simp only [Happening.judged?, Option.toList_none, List.append_nil]
    exact (List.subperm_append_left _).mpr (roster_finish member _)
  | killed =>
    refine Or.inr ?_
    simp only [Happening.judged?, Option.toList_none, List.append_nil]
    have jobs : (r.jobs.map Job.seq).Sublist r.outstanding :=
      (List.sublist_append_right _ _).trans (List.sublist_append_right _ _)
    exact (List.subperm_append_left _).mpr jobs.subperm
  | dropped _ idle _ results =>
    refine Or.inr ?_
    simp only [Happening.judged?, Option.toList_none, List.append_nil]
    apply (List.subperm_append_left _).mpr
    simp [Reconciler.outstanding, idle, results, List.Subperm.cons_self]
  | took _ idle _ results =>
    refine Or.inr (List.Perm.subperm (.of_eq ?_))
    simp [Happening.judged?, Reconciler.outstanding, idle, results]
  | judged _ held | outdated _ held =>
    refine Or.inr (List.Perm.subperm (.of_eq ?_))
    simp [Happening.judged?, Reconciler.outstanding, held]
  -- A job that is told to stop keeps its number.
  | queued | forsookInflight =>
    refine Or.inr (List.Perm.subperm (.of_eq ?_))
    simp [Happening.judged?, Reconciler.outstanding, r.spent_seqs]
  | _ =>
    refine Or.inr (List.Perm.subperm (.of_eq ?_))
    simp [Happening.judged?, Reconciler.outstanding]

namespace Enrolled

theorem spawn (settings : ReconcilerSettings) (horizon : Instant)
    (unknown : ∀ happening ∈ history, happening.reconciler? ≠ some k) :
    Enrolled (history ++ [.spawned k]) k (Reconciler.spawn settings horizon) := by
  have none : judgedSeqs (history ++ [.spawned k]) k = [] := by
    rw [judgedSeqs_concat, judgedSeqs, List.filterMap_eq_nil_iff.mpr fun happening member =>
      Happening.judged?_eq_none (unknown happening member)]
    rfl
  constructor <;> simp [roster, none, Reconciler.outstanding, Reconciler.spawn]

theorem aside (enrolled : Enrolled history k r) (other : happening.reconciler? ≠ some k) :
    Enrolled (history ++ [happening]) k r := by
  have same : roster (history ++ [happening]) k r = roster history k r := by
    simp [roster, judgedSeqs_concat, Happening.judged?_eq_none other]
  refine ⟨same ▸ enrolled.once, fun seq member => ?_⟩
  exact Nat.lt_of_lt_of_le (enrolled.known seq (same ▸ member)) (launches_le_concat _ _ _)

theorem move [DecidableEq U] {now : Instant} {p q : Provider U A} (enrolled : Enrolled history k r)
    (counted : Counted history k r) (few : launches history k < UInt64.size)
    (conduct : r.Conduct now history k p did after q happening) :
    Enrolled (history ++ [happening]) k after := by
  rcases roster_move conduct with ⟨started, grown⟩ | ⟨part, perm, sublist⟩
  · constructor
    · rw [grown]
      refine List.nodup_append.mpr ⟨enrolled.once, List.pairwise_singleton _ _, ?_⟩
      rintro seq before new now rfl
      cases List.mem_singleton.mp now
      exact Nat.ne_of_lt (enrolled.known _ before) (counted.nextSeq_toNat few)
    · intro seq member
      rw [grown] at member
      rw [launches_concat, started, if_pos rfl]
      rcases List.mem_append.mp member with before | now
      · exact Nat.lt_add_right _ (enrolled.known seq before)
      · cases List.mem_singleton.mp now
        rw [counted.nextSeq_toNat few]
        exact Nat.lt_succ_self _
  · refine ⟨(perm.nodup_iff).mp (sublist.nodup enrolled.once), fun seq member => ?_⟩
    have before := sublist.subset (perm.mem_iff.mpr member)
    exact Nat.lt_of_lt_of_le (enrolled.known seq before) (launches_le_concat _ _ _)

end Enrolled

/-! All of it along a run. -/

structure Orderly (history : List (Happening U A)) (k : Nat) (r : Reconciler U A) : Prop where
  counted : Counted history k r
  pool : Pool history k r
  waiting : Waiting history k r
  traced : Traced history k r
  sole : Sole history k r
  enrolled : Enrolled history k r

namespace Orderly

theorem spawn (settings : ReconcilerSettings) (horizon : Instant)
    (unknown : ∀ happening ∈ history, happening.reconciler? ≠ some k) :
    Orderly (history ++ [.spawned k]) k (Reconciler.spawn settings horizon) where
  counted := .spawn settings horizon unknown
  pool := .spawn settings horizon unknown
  waiting := .spawn settings horizon unknown
  traced := ⟨nofun, nofun, nofun⟩
  sole := ⟨Or.inl rfl, nofun, nofun⟩
  enrolled := .spawn settings horizon unknown

theorem aside (orderly : Orderly history k r) (other : happening.reconciler? ≠ some k) :
    Orderly (history ++ [happening]) k r where
  counted := by
    refine orderly.counted.grow ?_ ?_ ?_ ?_
    · simp [Happening.isLaunchOf_eq_false other]
    · simp [Happening.isEditOf_eq_false other]
    · rintro seq edit rfl
      exact absurd rfl other
    · rintro edit rfl
      exact absurd rfl other
  pool := by
    refine orderly.pool.keep (Or.inl rfl) ?_ ?_
    · rintro seq edit rfl
      exact other rfl
    · rintro seq result rfl
      exact other rfl
  waiting := orderly.waiting.aside other
  traced := by
    refine orderly.traced.keep (fun _ => id) (fun _ => id) (fun _ => id) ?_
    rintro edit rfl
    exact absurd rfl other
  sole := orderly.sole.keep id rfl (fun _ => id) id (Happening.isLaunchOf_eq_false other)
  enrolled := orderly.enrolled.aside other

variable [DecidableEq U]

theorem move {now : Instant} {p q : Provider U A} (orderly : Orderly history k r)
    (few : launches history k < UInt64.size)
    (conduct : r.Conduct now history k p did after q happening) :
    Orderly (history ++ [happening]) k after where
  counted := orderly.counted.move conduct
  pool := orderly.pool.move orderly.counted few conduct
  waiting := orderly.waiting.move conduct
  traced := orderly.traced.move orderly.pool orderly.waiting orderly.counted few conduct
  sole := orderly.sole.move orderly.counted orderly.pool orderly.traced few conduct
  enrolled := orderly.enrolled.move orderly.counted few conduct

theorem of_run {limits : Limits} {s : System U A} {acts : List (Act U A)}
    (ran : System.run? limits {} acts = some s) (found : s.reconcilers[k]? = some r)
    (few : launches s.history k < UInt64.size) : Orderly s.history k r := by
  refine (System.known_of_run (motive := fun history r =>
    launches history k < UInt64.size → Orderly history k r) ?_ ?_ ?_ ran).known r found few
  · exact fun _ settings unknown _ => .spawn settings limits.horizon unknown
  · intro history p q r did after happening orderly conduct few
    have before := Nat.lt_of_le_of_lt (launches_le_concat history happening k) few
    exact (orderly before).move before conduct
  · intro history r happening orderly other few
    exact (orderly (Nat.lt_of_le_of_lt (launches_le_concat history happening k) few)).aside other

end Orderly

structure IsLive (history : List (Happening U A)) (k : Nat) (r : Reconciler U A) (seq : UInt64) :
    Prop where
  started : ∃ edit, .launched k seq edit ∈ history
  running : ∀ result, .returned (.job k seq) result ∉ history
  unrevoked : r.isRevoked seq = false

theorem Orderly.live_iff (orderly : Orderly history k r) (alive : r.phase ≠ .killed)
    (seq : UInt64) : IsLive history k r seq ↔ r.stopped = false ∧
      (∃ inflight, r.inflight = some inflight ∧ inflight.seq = seq) ∧
        ∀ result, .returned (.job k seq) result ∉ history := by
  constructor
  · rintro ⟨⟨edit, launched⟩, running, unrevoked⟩
    have held := (orderly.pool.held seq edit launched).resolve_right fun ⟨result, returned⟩ =>
      running result returned
    obtain ⟨job, member, rfl⟩ := List.mem_map.mp held
    obtain ⟨go, fine⟩ := Bool.or_eq_false_iff.mp unrevoked
    have fine : job.revoked = false := by simpa using List.any_eq_false.mp fine job member
    exact ⟨go, (orderly.sole.live alive job member).mp fine, running⟩
  · rintro ⟨go, ⟨inflight, flying, rfl⟩, running⟩
    obtain ⟨noted, started, launch⟩ := orderly.traced.inflight inflight flying
    refine ⟨⟨_, List.mem_of_getElem? launch.startedAt⟩, running, Bool.or_eq_false_iff.mpr ⟨go, ?_⟩⟩
    refine List.any_eq_false.mpr fun job member => ?_
    by_cases mine : job.seq = inflight.seq
    · simp [(orderly.sole.live alive job member).mpr ⟨inflight, flying, mine.symm⟩]
    · simp [mine]

theorem Orderly.latest (orderly : Orderly history k r) (few : launches history k < UInt64.size)
    {inflight : Inflight U} {seq : UInt64} {edit : Edit U} (flying : r.inflight = some inflight)
    (launched : .launched k seq edit ∈ history) : seq ≤ inflight.seq := by
  have older := orderly.counted.seq_lt few launched
  rw [← orderly.sole.latest inflight flying] at older
  exact UInt64.le_iff_toNat_le.mpr (Nat.le_of_lt_succ older)

/-- The count of edits is the one after the edit was noted, so it has not moved since, or
has gone round. -/
theorem Counted.unedited (counted : Counted history k r) {noted : Nat} {edit : Edit U}
    (entry : history[noted]? = some (.noted k edit)) (current : r.noted = edit.stamp) :
    UInt64.size ∣ editsOf (history.drop (noted + 1)) k := by
  have parts : editsOf history k =
      editsOf (history.take (noted + 1)) k + editsOf (history.drop (noted + 1)) k := by
    rw [editsOf, editsOf, editsOf, ← List.countP_append, List.take_append_drop]
  rw [counted.noted, counted.stamp noted edit entry] at current
  have same := congrArg UInt64.toNat current
  rw [UInt64.toNat_ofNat', UInt64.toNat_ofNat'] at same
  rw [UInt64.size]
  omega

/-- What reconciler `k` hands over is what its parse of an edit made: no edit was taken
since that parse was started, none was noted since that edit itself, unless the count of
edits went all the way round, and a stop came, if at all, after the result was taken.
It is for the first time that a result of this parse is judged. -/
structure Earned (history : List (Happening U A)) (k : Nat) (d : Delivery U A) (taken : Taken U A)
    (edit : Edit U) (noted started ended received : Nat) : Prop where
  delivery : d = ⟨Reconciler.treeId history k (.judge taken), taken.parsed.result.toOption,
    edit.unit, edit.generation⟩
  lineage : Lineage history k taken edit noted started ended received
  unedited : UInt64.size ∣ editsOf (history.drop (noted + 1)) k
  unleft : .worked k .leave ∉ history
  unjudged : taken.parsed.seq ∉ judgedSeqs history k

variable [DecidableEq U] {limits : Limits} {s : System U A}

theorem System.delivery?_entry (limits : Limits) {d : Delivery U A}
    (due : s.delivery? (.reconciler k .turn) = some d) :
    ∃ r taken, s.reconcilers[k]? = some r ∧ r.phase = .running ∧ r.taken = some taken ∧
      r.noted = taken.stamp ∧
      d = ⟨Reconciler.treeId s.history k (.judge taken), taken.parsed.result.toOption,
        taken.parsed.unit, taken.parsed.generation⟩ ∧
      ∀ after, s.step? limits (.reconciler k .turn) = some after →
        after.history = s.history ++ [.worked k (.judge taken)] := by
  obtain ⟨r, taken, found, next, current, same⟩ := delivery?_turn due
  cases Reconciler.nextAction?_due next with
  | judge running held =>
    refine ⟨r, taken, found, running, held, current, same, fun after stepped => ?_⟩
    rw [step?_turn limits found next] at stepped
    cases stepped
    rfl

theorem Orderly.earned (orderly : Orderly s.history k r) (limits : Limits) {d : Delivery U A}
    (found : s.reconcilers[k]? = some r) (due : s.delivery? (.reconciler k .turn) = some d) :
    ∃ taken edit noted started ended received,
      Earned s.history k d taken edit noted started ended received ∧
        ∀ after, s.step? limits (.reconciler k .turn) = some after →
          after.history = s.history ++ [.worked k (.judge taken)] := by
  obtain ⟨r', taken, found', running, held, current, same, entry⟩ :=
    System.delivery?_entry limits due
  cases found.symm.trans found'
  obtain ⟨edit, noted, started, ended, received, lineage⟩ := orderly.traced.taken taken held
  refine ⟨taken, edit, noted, started, ended, received, ⟨?_, lineage, ?_, ?_, ?_⟩, entry⟩
  · rw [same, lineage.ending.unit, lineage.ending.generation]
  · exact orderly.counted.unedited lineage.launch.notedAt (current.trans lineage.stamp)
  · exact fun left => orderly.waiting.left left running
  · intro judged
    -- A number stands on the roster once, and this one still stands among those to be judged.
    have outstanding : taken.parsed.seq ∈ r.outstanding := by
      simp [Reconciler.outstanding, held]
    exact (List.nodup_append.mp orderly.enrolled.once).2.2 _ judged _ outstanding rfl

/-- At most one parse of a reconciler is live, and only its result counts. An edit never
waits while a parse is in flight; the live parse is the one in flight, which has the
highest number of all; each parse is judged once at most. Whatever the worker hands over
is `Earned`, by no more than one turn for each parse. No other move of the reconciler puts
a tree into the cache, and none at all does after the worker left its loop at a stop. -/
theorem one_live_parse {acts : List (Act U A)} (ran : System.run? limits {} acts = some s)
    (found : s.reconcilers[k]? = some r) (alive : r.phase ≠ .killed)
    (few : launches s.history k < UInt64.size) :
    (r.pending = none ∨ r.inflight = none) ∧
    (∀ seq, IsLive s.history k r seq ↔ r.stopped = false ∧
      (∃ inflight, r.inflight = some inflight ∧ inflight.seq = seq) ∧
        ∀ result, .returned (.job k seq) result ∉ s.history) ∧
    (∀ inflight seq edit, r.inflight = some inflight → .launched k seq edit ∈ s.history →
      seq ≤ inflight.seq) ∧
    (judgedSeqs s.history k).Nodup ∧
    (∀ d, s.delivery? (.reconciler k .turn) = some d →
      ∃ taken edit noted started ended received,
        Earned s.history k d taken edit noted started ended received ∧
          ∀ after, s.step? limits (.reconciler k .turn) = some after →
            after.history = s.history ++ [.worked k (.judge taken)]) ∧
    (∀ move after, s.step? limits (.reconciler k move) = some after →
      s.delivery? (.reconciler k move) = none ∨ .worked k .leave ∈ s.history →
        s.provider.AddsNone after.provider) := by
  have orderly := Orderly.of_run ran found few
  refine ⟨orderly.sole.apart, orderly.live_iff alive,
    fun inflight seq edit flying launched => orderly.latest few flying launched,
    (List.nodup_append.mp orderly.enrolled.once).1,
    fun d due => orderly.earned limits found due, fun move after stepped either => ?_⟩
  -- A worker that left its loop hands nothing over.
  have quiet : s.delivery? (.reconciler k move) = none := by
    rcases either with quiet | left
    · exact quiet
    · cases move with
      | turn =>
        cases due : s.delivery? (.reconciler k .turn) with
        | none => rfl
        | some d =>
          obtain ⟨_, _, _, _, _, _, earned, _⟩ := orderly.earned limits found due
          exact absurd left earned.unleft
      | _ => rfl
  exact System.step?_addsNone quiet nofun stepped

/-- The first parse goes on after a second edit and returns a tree, which is dropped; the
tree of the second one is about to be handed over. -/
def stubbornRun : List (Act Nat Nat) :=
  [.spawn { debounceMs := 1 }, .reconciler 0 (.note 7), .reconciler 0 .send, .reconciler 0 .turn,
    .tick 1000000, .reconciler 0 .turn, .reconciler 0 (.call 0), .reconciler 0 (.note 7),
    .reconciler 0 .send, .reconciler 0 .turn, .tick 1000000, .reconciler 0 .turn,
    .reconciler 0 (.call 1), .reconciler 0 (.finish 0 (.returned (.ok 4))), .reconciler 0 .turn,
    .reconciler 0 (.finish 1 (.returned (.ok 5))), .reconciler 0 .turn]

def outlasted : System Nat Nat := (System.run? ⟨{}, Clock.day⟩ {} stubbornRun).get rfl

theorem one_live_parse_outlasted :
    ∃ r : Reconciler Nat Nat, System.run? ⟨{}, Clock.day⟩ {} stubbornRun = some outlasted ∧
      outlasted.reconcilers[0]? = some r ∧ r.phase ≠ .killed ∧
      launches outlasted.history 0 = 2 ∧
      outlasted.delivery? (.reconciler 0 .turn) = some ⟨12, some 5, 7, ⟨1⟩⟩ ∧
      (judgedSeqs outlasted.history 0).Nodup ∧ (∀ seq, ¬ IsLive outlasted.history 0 r seq) ∧
      ∃ taken edit noted started ended received,
        Earned outlasted.history 0 ⟨12, some 5, 7, ⟨1⟩⟩ taken edit noted started ended received := by
  have ran : System.run? ⟨{}, Clock.day⟩ {} stubbornRun = some outlasted := (Option.some_get _).symm
  have found : outlasted.reconcilers[0]? = some (outlasted.reconcilers.get ⟨0, by decide⟩) := rfl
  have count : launches outlasted.history 0 = 2 := rfl
  have due : outlasted.delivery? (.reconciler 0 .turn) = some ⟨12, some 5, 7, ⟨1⟩⟩ := rfl
  obtain ⟨_, live, _, once, earned, _⟩ :=
    one_live_parse ran found (by decide) (by rw [count]; decide)
  obtain ⟨taken, edit, noted, started, ended, received, lineage, _⟩ := earned _ due
  refine ⟨_, ran, found, by decide, count, due, once, fun seq lives => ?_, taken, edit, noted, started,
    ended, received, lineage⟩
  obtain ⟨_, ⟨inflight, flying, _⟩, _⟩ := (live seq).mp lives
  cases flying

end FreshTree
