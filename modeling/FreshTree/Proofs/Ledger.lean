import FreshTree.Proofs.Worker

/-!
The accounts of a reconciler: how what it has in hand agrees with what happened.
An edit is noted once, launched at most once and under a sequence number of its
own, and a result can only be that of a call that was made for it.

The numbers of edits and of parses are machine words. Every parse uses up an
edit, so both stay exact as long as fewer than 2^64 edits are noted.
-/

namespace FreshTree

variable {U A : Type}

def Launched (history : List (Happening U A)) (k : Nat) (seq : UInt64) (unit : U)
    (generation : Generation) : Prop :=
  ∃ edit, .launched k seq edit ∈ history ∧ edit.unit = unit ∧ edit.generation = generation

structure Returned (history : List (Happening U A)) (k : Nat) (parsed : Parsed U A) : Prop where
  launched : Launched history k parsed.seq parsed.unit parsed.generation
  called : .called (.job k parsed.seq) parsed.unit ∈ history
  returned : .returned (.job k parsed.seq) parsed.result ∈ history

namespace Ledger

structure Stamps (history : List (Happening U A)) (k : Nat) (r : Reconciler U A) : Prop where
  noted_stamp : ∀ edit, .noted k edit ∈ history → edit.stamp.toNat ≤ r.noted.toNat
  noted_apart : ∀ edit other, .noted k edit ∈ history → .noted k other ∈ history →
    edit.stamp = other.stamp → edit = other

/-- The edits that wait were noted and not launched, and together with the parses
launched they are no more than the count. -/
structure Backlog (history : List (Happening U A)) (k : Nat) (r : Reconciler U A) : Prop where
  counted : r.nextSeq.toNat + r.waiting.length ≤ r.noted.toNat
  waiting_nodup : r.waiting.Nodup
  waiting_new : ∀ edit ∈ r.waiting, ∀ seq, .launched k seq edit ∉ history
  waiting_noted : ∀ edit ∈ r.waiting, .noted k edit ∈ history

structure Launchings (history : List (Happening U A)) (k : Nat) (r : Reconciler U A) : Prop where
  launched_noted : ∀ seq edit, .launched k seq edit ∈ history → .noted k edit ∈ history
  launched_seq : ∀ seq edit, .launched k seq edit ∈ history → seq.toNat < r.nextSeq.toNat
  launched_apart : ∀ seq edit seq' edit', .launched k seq edit ∈ history →
    .launched k seq' edit' ∈ history → (seq = seq' ↔ edit = edit')
  inflight_launched : ∀ inflight, r.inflight = some inflight →
    .launched k inflight.seq inflight.edit ∈ history
  taken_launched : ∀ taken, r.taken = some taken →
    .launched k taken.parsed.seq taken.edit ∈ history
  job_launched : ∀ job ∈ r.jobs, Launched history k job.seq job.unit job.generation

structure Calls (history : List (Happening U A)) (k : Nat) (r : Reconciler U A) : Prop where
  called_launched : ∀ seq unit, .called (.job k seq) unit ∈ history →
    ∃ edit, .launched k seq edit ∈ history ∧ edit.unit = unit
  /-- As long as no later edit was noted, a call made for an edit was made after
  all edits of this reconciler. -/
  called_after : ∀ (moment : Nat) (seq : UInt64) (unit : U) (edit : Edit U),
    history[moment]? = some (.called (.job k seq) unit) →
    .launched k seq edit ∈ history → r.noted = edit.stamp →
    ∀ (earlier : Nat) (other : Edit U), history[earlier]? = some (.noted k other) →
      earlier < moment

/-- A parse that was launched returns once and is off the pool then, and a result can only
be that of a parse that returned. -/
structure Returns (history : List (Happening U A)) (k : Nat) (r : Reconciler U A) : Prop where
  taken_returned : ∀ taken, r.taken = some taken → Returned history k taken.parsed
  result_returned : ∀ parsed ∈ r.results, Returned history k parsed
  returned_launched : ∀ seq result, .returned (.job k seq) result ∈ history →
    ∃ edit, .launched k seq edit ∈ history
  returned_gone : ∀ seq result, .returned (.job k seq) result ∈ history →
    ∀ job ∈ r.jobs, job.seq ≠ seq
  returned_apart : ∀ seq result other, .returned (.job k seq) result ∈ history →
    .returned (.job k seq) other ∈ history → result = other

end Ledger

structure Ledger (history : List (Happening U A)) (k : Nat) (r : Reconciler U A) : Prop extends
  Ledger.Stamps history k r, Ledger.Backlog history k r, Ledger.Launchings history k r,
  Ledger.Calls history k r, Ledger.Returns history k r

/-! Looking up a history that has grown by one entry. -/

theorem entry_append {α : Type} {entries : List α} {last entry : α} {moment : Nat} :
    (entries ++ [last])[moment]? = some entry ↔
      entries[moment]? = some entry ∨ moment = entries.length ∧ last = entry := by
  rcases Nat.lt_trichotomy moment entries.length with before | now | after
  · rw [List.getElem?_append_left before]
    simp [Nat.ne_of_lt before]
  · subst now
    simp
  · rw [List.getElem?_eq_none (by simp; omega), List.getElem?_eq_none (by omega)]
    simp [Nat.ne_of_gt after]

theorem entry_before {α : Type} {entries : List α} {last entry : α} {moment : Nat}
    (found : (entries ++ [last])[moment]? = some entry) (other : last ≠ entry) :
    entries[moment]? = some entry :=
  (entry_append.mp found).resolve_right fun now => other now.2

theorem mem_grown {history : List (Happening U A)} {happening entry : Happening U A} :
    entry ∈ history ++ [happening] ↔ entry ∈ history ∨ happening = entry := by
  simp [eq_comm]

theorem mem_before {history : List (Happening U A)} {happening entry : Happening U A}
    (member : entry ∈ history ++ [happening]) (other : happening ≠ entry) : entry ∈ history :=
  (mem_grown.mp member).resolve_right other

theorem mem_of_aside {history : List (Happening U A)} {k : Nat} {happening entry : Happening U A}
    (aside : happening.IsAside k) (member : entry ∈ history ++ [happening])
    (mine : ¬ entry.IsAside k) : entry ∈ history :=
  mem_before member (aside.ne mine)

theorem Launched.grow {history : List (Happening U A)} {k : Nat} {seq : UInt64} {unit : U}
    {generation : Generation} (launched : Launched history k seq unit generation)
    (happening : Happening U A) : Launched (history ++ [happening]) k seq unit generation := by
  obtain ⟨edit, member, same⟩ := launched
  exact ⟨edit, List.mem_append_left _ member, same⟩

theorem Returned.grow {history : List (Happening U A)} {k : Nat} {parsed : Parsed U A}
    (returned : Returned history k parsed) (happening : Happening U A) :
    Returned (history ++ [happening]) k parsed :=
  ⟨returned.launched.grow happening, List.mem_append_left _ returned.called,
    List.mem_append_left _ returned.returned⟩

theorem callMoment?_some {history : List (Happening U A)} {caller : Caller} {moment : Nat}
    (found : callMoment? history caller = some moment) :
    ∃ unit, history[moment]? = some (.called caller unit) := by
  obtain ⟨inside, holds, _⟩ := List.findIdx?_eq_some_iff_getElem.mp found
  rw [List.getElem?_eq_getElem inside]
  revert holds
  cases history[moment] <;> simp [Happening.isCallOf]

theorem callMoment?_none {history : List (Happening U A)} {caller : Caller}
    (absent : callMoment? history caller = none) (unit : U) : .called caller unit ∉ history := by
  intro member
  have other := List.findIdx?_eq_none_iff.mp absent _ member
  simp [Happening.isCallOf] at other

theorem succ_toNat {count : UInt64} (few : count.toNat + 1 < UInt64.size) :
    (count + 1).toNat = count.toNat + 1 := by
  rw [UInt64.toNat_add]
  exact Nat.mod_eq_of_lt few

/-- A machine word comes back to where it was only after a full round. -/
theorem add_ofNat_eq_self {word : UInt64} {steps : Nat} (few : steps < UInt64.size) :
    word + UInt64.ofNat steps = word ↔ steps = 0 := by
  constructor
  · intro same
    have values := congrArg UInt64.toNat same
    have bound := word.toNat_lt
    rw [UInt64.toNat_add, UInt64.toNat_ofNat_of_lt' few] at values
    have size : UInt64.size = 2 ^ 64 := rfl
    omega
  · rintro rfl
    exact UInt64.add_zero word

namespace Ledger

variable {history : List (Happening U A)} {k : Nat} {r after : Reconciler U A}
  {happening : Happening U A}

namespace Stamps

theorem keep (stamps : Stamps history k r) (quiet : ∀ edit, happening ≠ .noted k edit)
    (same : after.noted = r.noted) : Stamps (history ++ [happening]) k after where
  noted_stamp := by
    intro edit member
    rw [same]
    exact stamps.noted_stamp edit (mem_before member (quiet edit))
  noted_apart := fun edit other member member' =>
    stamps.noted_apart edit other (mem_before member (quiet edit)) (mem_before member' (quiet other))

theorem later (stamps : Stamps history k r) (few : r.noted.toNat + 1 < UInt64.size)
    {edit : Edit U} (noted : .noted k edit ∈ history) : edit.stamp ≠ r.noted + 1 := by
  intro same
  have bound := stamps.noted_stamp edit noted
  rw [same, succ_toNat few] at bound
  omega

theorem count (stamps : Stamps history k r) (few : r.noted.toNat + 1 < UInt64.size)
    (one : after.noted = r.noted + 1) : Stamps history k after where
  noted_stamp := by
    intro edit member
    have bound := stamps.noted_stamp edit member
    rw [one, succ_toNat few]
    omega
  noted_apart := stamps.noted_apart

theorem note {edit : Edit U} (stamps : Stamps history k r) (few : r.noted.toNat + 1 < UInt64.size)
    (stamp : edit.stamp = r.noted + 1) (one : after.noted = r.noted + 1) :
    Stamps (history ++ [.noted k edit]) k after where
  noted_stamp := by
    intro other member
    rcases mem_grown.mp member with before | now
    · exact (stamps.count few one).noted_stamp other before
    · cases now
      exact Nat.le_of_eq (congrArg UInt64.toNat (stamp.trans one.symm))
  noted_apart := by
    intro first other member member' same
    rcases mem_grown.mp member with before | now <;>
      rcases mem_grown.mp member' with before' | now'
    · exact stamps.noted_apart first other before before' same
    · cases now'
      exact absurd (same.trans stamp) (stamps.later few before)
    · cases now
      exact absurd (same.symm.trans stamp) (stamps.later few before')
    · cases now
      cases now'
      rfl

end Stamps

namespace Backlog

theorem keep (backlog : Backlog history k r)
    (quiet : ∀ seq edit, happening ≠ .launched k seq edit) (next : after.nextSeq = r.nextSeq)
    (noted : r.noted.toNat ≤ after.noted.toNat) (waiting : after.waiting.Sublist r.waiting) :
    Backlog (history ++ [happening]) k after where
  counted := by
    have shorter := waiting.length_le
    have counted := backlog.counted
    rw [next]
    omega
  waiting_nodup := backlog.waiting_nodup.sublist waiting
  waiting_new := fun edit member seq launched =>
    backlog.waiting_new edit (waiting.subset member) seq (mem_before launched (quiet seq edit))
  waiting_noted := fun edit member =>
    List.mem_append_left _ (backlog.waiting_noted edit (waiting.subset member))

theorem note {edit : Edit U} (backlog : Backlog history k r)
    (few : r.noted.toNat + 1 < UInt64.size) (new : .noted k edit ∉ history)
    (unlaunched : ∀ seq, .launched k seq edit ∉ history) (next : after.nextSeq = r.nextSeq)
    (one : after.noted = r.noted + 1) (waits : after.waiting = r.waiting ++ [edit]) :
    Backlog (history ++ [.noted k edit]) k after where
  counted := by
    have counted := backlog.counted
    rw [waits, List.length_append, List.length_singleton, next, one, succ_toNat few]
    omega
  waiting_nodup := by
    rw [waits]
    refine List.nodup_append.mpr ⟨backlog.waiting_nodup, by simp, ?_⟩
    intro other member last isLast same
    rw [List.mem_singleton] at isLast
    subst same isLast
    exact new (backlog.waiting_noted _ member)
  waiting_new := by
    intro other member seq launched
    have before : .launched k seq other ∈ history := by simpa [mem_grown] using launched
    rw [waits, List.mem_append, List.mem_singleton] at member
    rcases member with member | rfl
    · exact backlog.waiting_new other member seq before
    · exact unlaunched seq before
  waiting_noted := by
    intro other member
    rw [waits, List.mem_append, List.mem_singleton] at member
    rcases member with member | rfl
    · exact List.mem_append_left _ (backlog.waiting_noted other member)
    · exact List.mem_append_right _ (List.mem_singleton_self _)

/-- The next sequence number is exact, because every parse uses up an edit. -/
theorem next_exact {edit : Edit U} {rest : List (Edit U)} (backlog : Backlog history k r)
    (waits : r.waiting = edit :: rest) : (r.nextSeq + 1).toNat = r.nextSeq.toNat + 1 := by
  have counted := backlog.counted
  rw [waits, List.length_cons] at counted
  have bound : r.nextSeq.toNat + 1 ≤ r.noted.toNat := by omega
  exact succ_toNat (Nat.lt_of_le_of_lt bound r.noted.toNat_lt)

theorem launch {edit : Edit U} (backlog : Backlog history k r)
    (waits : r.waiting = edit :: after.waiting) (next : after.nextSeq = r.nextSeq + 1)
    (noted : after.noted = r.noted) : Backlog (history ++ [.launched k r.nextSeq edit]) k after where
  counted := by
    have counted := backlog.counted
    rw [waits, List.length_cons] at counted
    rw [next, noted, backlog.next_exact waits]
    omega
  waiting_nodup := by
    have nodup := backlog.waiting_nodup
    rw [waits, List.nodup_cons] at nodup
    exact nodup.2
  waiting_new := by
    intro other member seq launched
    rcases mem_grown.mp launched with before | now
    · exact backlog.waiting_new other (waits ▸ List.mem_cons_of_mem _ member) seq before
    · cases now
      have nodup := backlog.waiting_nodup
      rw [waits, List.nodup_cons] at nodup
      exact nodup.1 member
  waiting_noted := fun other member =>
    List.mem_append_left _ (backlog.waiting_noted other (waits ▸ List.mem_cons_of_mem _ member))

end Backlog

namespace Launchings

theorem keep (launchings : Launchings history k r)
    (quiet : ∀ seq edit, happening ≠ .launched k seq edit) (next : after.nextSeq = r.nextSeq)
    (inflight : ∀ inflight, after.inflight = some inflight → r.inflight = some inflight)
    (taken : ∀ taken, after.taken = some taken → r.taken = some taken)
    (jobs : ∀ job ∈ after.jobs, ∃ old ∈ r.jobs,
      old.seq = job.seq ∧ old.unit = job.unit ∧ old.generation = job.generation) :
    Launchings (history ++ [happening]) k after where
  launched_noted := fun seq edit member =>
    List.mem_append_left _ (launchings.launched_noted seq edit (mem_before member (quiet seq edit)))
  launched_seq := by
    intro seq edit member
    rw [next]
    exact launchings.launched_seq seq edit (mem_before member (quiet seq edit))
  launched_apart := fun seq edit seq' edit' member member' =>
    launchings.launched_apart seq edit seq' edit' (mem_before member (quiet seq edit))
      (mem_before member' (quiet seq' edit'))
  inflight_launched := fun flight flies =>
    List.mem_append_left _ (launchings.inflight_launched flight (inflight flight flies))
  taken_launched := fun result holds =>
    List.mem_append_left _ (launchings.taken_launched result (taken result holds))
  job_launched := by
    intro job member
    obtain ⟨old, held, seq, unit, generation⟩ := jobs job member
    rw [← seq, ← unit, ← generation]
    exact (launchings.job_launched old held).grow happening

theorem seq_new (launchings : Launchings history k r) (edit : Edit U) :
    .launched k r.nextSeq edit ∉ history :=
  fun member => Nat.lt_irrefl _ (launchings.launched_seq r.nextSeq edit member)

theorem launch {edit : Edit U} (launchings : Launchings history k r)
    (noted : .noted k edit ∈ history) (new : ∀ seq, .launched k seq edit ∉ history)
    (exactly : (r.nextSeq + 1).toNat = r.nextSeq.toNat + 1) (next : after.nextSeq = r.nextSeq + 1)
    (inflight : after.inflight = some ⟨r.nextSeq, edit⟩) (taken : after.taken = r.taken)
    (jobs : after.jobs =
      r.jobs ++ [{ seq := r.nextSeq, unit := edit.unit, generation := edit.generation }]) :
    Launchings (history ++ [.launched k r.nextSeq edit]) k after where
  launched_noted := by
    intro seq other launched
    rcases mem_grown.mp launched with before | now
    · exact List.mem_append_left _ (launchings.launched_noted seq other before)
    · cases now
      exact List.mem_append_left _ noted
  launched_seq := by
    intro seq other launched
    rw [next, exactly]
    rcases mem_grown.mp launched with before | now
    · exact Nat.lt_succ_of_lt (launchings.launched_seq seq other before)
    · cases now
      exact Nat.lt_succ_self _
  launched_apart := by
    intro seq first seq' last launched launched'
    -- The number is new and so is the edit, so neither goes with an older one of the other.
    rcases mem_grown.mp launched with before | now <;>
      rcases mem_grown.mp launched' with before' | now'
    · exact launchings.launched_apart seq first seq' last before before'
    · cases now'
      exact ⟨fun same => absurd (same ▸ before) (launchings.seq_new first),
        fun same => absurd (same ▸ before) (new seq)⟩
    · cases now
      exact ⟨fun same => absurd (same ▸ before') (launchings.seq_new last),
        fun same => absurd (same ▸ before') (new seq')⟩
    · cases now
      cases now'
      simp
  inflight_launched := by
    intro flight flies
    cases inflight.symm.trans flies
    exact List.mem_append_right _ (List.mem_singleton_self _)
  taken_launched := fun result holds =>
    List.mem_append_left _ (launchings.taken_launched result (taken ▸ holds))
  job_launched := by
    intro job member
    rw [jobs] at member
    rcases List.mem_append.mp member with before | now
    · exact (launchings.job_launched job before).grow _
    · obtain rfl := List.mem_singleton.mp now
      exact ⟨edit, List.mem_append_right _ (List.mem_singleton_self _), rfl, rfl⟩

end Launchings

namespace Calls

theorem keep (calls : Calls history k r) (uncalled : ∀ seq unit, happening ≠ .called (.job k seq) unit)
    (unlaunched : ∀ seq edit, happening ≠ .launched k seq edit)
    (unnoted : ∀ edit, happening ≠ .noted k edit) (same : after.noted = r.noted) :
    Calls (history ++ [happening]) k after where
  called_launched := by
    intro seq unit member
    obtain ⟨edit, launched, mine⟩ := calls.called_launched seq unit (mem_before member (uncalled seq unit))
    exact ⟨edit, List.mem_append_left _ launched, mine⟩
  called_after := by
    intro moment seq unit edit entry launched current earlier other note
    rw [same] at current
    have launched := mem_before launched (unlaunched seq edit)
    rcases entry_append.mp entry with entry | ⟨_, now⟩
    · rcases entry_append.mp note with note | ⟨_, now⟩
      · exact calls.called_after moment seq unit edit entry launched current earlier other note
      · exact absurd now (unnoted other)
    · exact absurd now (uncalled seq unit)

theorem count (calls : Calls history k r) (uncalled : ∀ seq unit, happening ≠ .called (.job k seq) unit)
    (unlaunched : ∀ seq edit, happening ≠ .launched k seq edit)
    (past : ∀ seq edit, .launched k seq edit ∈ history → edit.stamp ≠ after.noted) :
    Calls (history ++ [happening]) k after where
  called_launched := by
    intro seq unit member
    obtain ⟨edit, launched, mine⟩ := calls.called_launched seq unit (mem_before member (uncalled seq unit))
    exact ⟨edit, List.mem_append_left _ launched, mine⟩
  called_after := fun _ seq _ edit _ launched current =>
    absurd current.symm (past seq edit (mem_before launched (unlaunched seq edit)))

theorem launch {edit : Edit U} {seq : UInt64} (calls : Calls history k r)
    (new : ∀ edit, .launched k seq edit ∉ history) (same : after.noted = r.noted) :
    Calls (history ++ [.launched k seq edit]) k after where
  called_launched := by
    intro seq unit member
    obtain ⟨edit, launched, mine⟩ := calls.called_launched seq unit (by simpa [mem_grown] using member)
    exact ⟨edit, List.mem_append_left _ launched, mine⟩
  called_after := by
    intro moment seq' unit edit' entry launched current earlier other note
    rw [same] at current
    have entry := entry_before entry (by simp)
    have note := entry_before note (by simp)
    rcases mem_grown.mp launched with before | now
    · exact calls.called_after moment seq' unit edit' entry before current earlier other note
    · -- A parse cannot have been called before it was launched.
      cases now
      obtain ⟨first, first', _⟩ := calls.called_launched seq unit (List.mem_of_getElem? entry)
      exact absurd first' (new first)

theorem call {seq : UInt64} {unit : U} {edit : Edit U} (calls : Calls history k r)
    (launched : .launched k seq edit ∈ history) (mine : edit.unit = unit) :
    Calls (history ++ [.called (.job k seq) unit]) k r where
  called_launched := by
    intro seq' unit' called
    rcases mem_grown.mp called with before | now
    · obtain ⟨first, launched, mine⟩ := calls.called_launched seq' unit' before
      exact ⟨first, List.mem_append_left _ launched, mine⟩
    · cases now
      exact ⟨edit, List.mem_append_left _ launched, mine⟩
  called_after := by
    intro moment seq' unit' edit' entry launched current earlier other note
    have launched : .launched k seq' edit' ∈ history := by simpa [mem_grown] using launched
    have note := entry_before note (by simp)
    rcases entry_append.mp entry with entry | ⟨now, _⟩
    · exact calls.called_after moment seq' unit' edit' entry launched current earlier other note
    · -- The call that starts now comes after everything noted so far.
      exact now ▸ (List.getElem?_eq_some_iff.mp note).1

end Calls

namespace Returns

theorem keep (returns : Returns history k r)
    (quiet : ∀ seq result, happening ≠ .returned (.job k seq) result)
    (taken : ∀ taken, after.taken = some taken → r.taken = some taken)
    (results : ∀ parsed ∈ after.results, parsed ∈ r.results)
    (jobs : ∀ job ∈ after.jobs,
      (∃ old ∈ r.jobs, old.seq = job.seq) ∨ ∀ edit, .launched k job.seq edit ∉ history) :
    Returns (history ++ [happening]) k after where
  taken_returned := fun result holds =>
    (returns.taken_returned result (taken result holds)).grow happening
  result_returned := fun parsed member =>
    (returns.result_returned parsed (results parsed member)).grow happening
  returned_launched := by
    intro seq result member
    obtain ⟨edit, launched⟩ :=
      returns.returned_launched seq result (mem_before member (quiet seq result))
    exact ⟨edit, List.mem_append_left _ launched⟩
  returned_gone := by
    intro seq result member job inside same
    have before := mem_before member (quiet seq result)
    rcases jobs job inside with ⟨old, held, old_seq⟩ | new
    · exact returns.returned_gone seq result before old held (old_seq.trans same)
    · obtain ⟨edit, launched⟩ := returns.returned_launched seq result before
      exact new edit (same ▸ launched)
  returned_apart := fun seq result other member member' =>
    returns.returned_apart seq result other (mem_before member (quiet seq result))
      (mem_before member' (quiet seq other))

theorem finish {job : Job U} {result : Except ParseFailure A} (returns : Returns history k r)
    (member : job ∈ r.jobs) (launched : Launched history k job.seq job.unit job.generation)
    (called : .called (.job k job.seq) job.unit ∈ history) :
    Returns (history ++ [.returned (.job k job.seq) result]) k
      (r.deliver (job.parsed result)) where
  taken_returned := fun taken holds => (returns.taken_returned taken holds).grow _
  result_returned := by
    intro parsed inside
    have known : parsed ∈ r.results ∨ parsed = job.parsed result := by
      simp only [Reconciler.deliver] at inside
      split at inside
      · simpa using inside
      · exact Or.inl inside
    rcases known with before | rfl
    · exact (returns.result_returned parsed before).grow _
    · exact ⟨launched.grow _, List.mem_append_left _ called,
        List.mem_append_right _ (List.mem_singleton_self _)⟩
  returned_launched := by
    intro seq other returned
    rcases mem_grown.mp returned with before | now
    · obtain ⟨edit, launched⟩ := returns.returned_launched seq other before
      exact ⟨edit, List.mem_append_left _ launched⟩
    · cases now
      obtain ⟨edit, launched, _⟩ := launched
      exact ⟨edit, List.mem_append_left _ launched⟩
  returned_gone := by
    intro seq other returned job' inside
    obtain ⟨old, apart⟩ := List.mem_filter.mp inside
    rcases mem_grown.mp returned with before | now
    · exact returns.returned_gone seq other before job' old
    · cases now
      exact of_decide_eq_true apart
  returned_apart := by
    -- The job is gone once it returned, so it cannot return again.
    intro seq one other returned returned'
    rcases mem_grown.mp returned with before | now <;>
      rcases mem_grown.mp returned' with before' | now'
    · exact returns.returned_apart seq one other before before'
    · cases now'
      exact absurd rfl (returns.returned_gone _ _ before job member)
    · cases now
      exact absurd rfl (returns.returned_gone _ _ before' job member)
    · cases now
      cases now'
      rfl

end Returns

theorem spawn (settings : ReconcilerSettings) (horizon : Instant)
    (unknown : ∀ happening ∈ history, happening.IsAside k) :
    Ledger history k (Reconciler.spawn settings horizon) where
  counted := Nat.le_refl _
  waiting_nodup := List.nodup_nil
  waiting_new := nofun
  waiting_noted := nofun
  noted_stamp := fun _ member => absurd rfl (unknown _ member)
  noted_apart := fun _ _ member => absurd rfl (unknown _ member)
  launched_noted := fun _ _ member => absurd rfl (unknown _ member)
  launched_seq := fun _ _ member => absurd rfl (unknown _ member)
  launched_apart := fun _ _ _ _ member => absurd rfl (unknown _ member)
  inflight_launched := nofun
  taken_launched := nofun
  taken_returned := nofun
  result_returned := nofun
  job_launched := nofun
  called_launched := fun _ _ member => absurd rfl (unknown _ member)
  returned_launched := fun _ _ member => absurd rfl (unknown _ member)
  returned_gone := fun _ _ member => absurd rfl (unknown _ member)
  returned_apart := fun _ _ _ member => absurd rfl (unknown _ member)
  called_after := fun _ _ _ _ entry => absurd rfl (unknown _ (List.mem_of_getElem? entry))

theorem forget (ledger : Ledger history k r) (forgets : r.Forgets after)
    (aside : happening.IsAside k) : Ledger (history ++ [happening]) k after where
  toStamps := ledger.toStamps.keep aside.ne_noted forgets.noted
  toBacklog := ledger.toBacklog.keep (fun _ _ => aside.ne (absurd rfl ·)) forgets.nextSeq
    (Nat.le_of_eq (congrArg UInt64.toNat forgets.noted.symm)) forgets.waiting
  toLaunchings := ledger.toLaunchings.keep (fun _ _ => aside.ne (absurd rfl ·)) forgets.nextSeq
    forgets.inflight forgets.taken forgets.jobs
  toCalls := ledger.toCalls.keep (fun _ _ => aside.ne (absurd rfl ·))
    (fun _ _ => aside.ne (absurd rfl ·)) aside.ne_noted forgets.noted
  toReturns := by
    apply ledger.toReturns.keep (fun _ _ => aside.ne (absurd rfl ·)) forgets.taken forgets.results
    intro job member
    obtain ⟨old, held, same, _⟩ := forgets.jobs job member
    exact Or.inl ⟨old, held, same⟩

theorem later (ledger : Ledger history k r) (few : r.noted.toNat + 1 < UInt64.size)
    {seq : UInt64} {edit : Edit U} (launched : .launched k seq edit ∈ history) :
    edit.stamp ≠ r.noted + 1 :=
  ledger.toStamps.later few (ledger.launched_noted seq edit launched)

theorem refuse (ledger : Ledger history k r) (few : r.noted.toNat + 1 < UInt64.size)
    (aside : happening.IsAside k) :
    Ledger (history ++ [happening]) k { r with noted := r.noted + 1 } :=
  { ledger.forget (.refl r) aside with
    toStamps := (ledger.toStamps.count few rfl).keep aside.ne_noted rfl
    toBacklog := ledger.toBacklog.keep (fun _ _ => aside.ne (absurd rfl ·)) rfl
      (by simp only [succ_toNat few, Nat.le_add_right]) (.refl _)
    toCalls := ledger.toCalls.count (fun _ _ => aside.ne (absurd rfl ·))
      (fun _ _ => aside.ne (absurd rfl ·)) fun _ _ => ledger.later few }

theorem next_new (ledger : Ledger history k r) (few : r.noted.toNat + 1 < UInt64.size) {edit : Edit U}
    (stamp : edit.stamp = r.noted + 1) : .noted k edit ∉ history :=
  fun member => ledger.toStamps.later few member stamp

theorem note {edit : Edit U} (ledger : Ledger history k r) (few : r.noted.toNat + 1 < UInt64.size)
    (free : r.noting = none) (stamp : edit.stamp = r.noted + 1) :
    Ledger (history ++ [.noted k edit]) k
      { r with noted := r.noted + 1, noting := some edit } where
  toStamps := ledger.toStamps.note few stamp rfl
  toBacklog := by
    apply ledger.toBacklog.note few (ledger.next_new few stamp)
    · exact fun seq launched => ledger.later few launched stamp
    · rfl
    · rfl
    · simp [Reconciler.waiting, free]
  toLaunchings := ledger.toLaunchings.keep (by simp) rfl (fun _ => id) (fun _ => id)
    fun job member => ⟨job, member, rfl, rfl, rfl⟩
  toCalls := ledger.toCalls.count (by simp) (by simp) fun _ _ => ledger.later few
  toReturns := ledger.toReturns.keep (by simp) (fun _ => id) (fun _ => id)
    fun job member => Or.inl ⟨job, member, rfl⟩

theorem launch {pending : Pending U} (ledger : Ledger history k r) (p : Provider U A)
    (none : r.commands = []) (held : r.pending = some pending) :
    Ledger (history ++ [.launched k r.nextSeq pending.edit]) k
      (Reconciler.launch p pending.edit r).reconciler := by
  have waits : r.waiting = pending.edit ::
      (Reconciler.launch p pending.edit r).reconciler.waiting := by
    simp [Reconciler.waiting, Reconciler.launch, none, held]
  have inside : pending.edit ∈ r.waiting := by simp [waits]
  constructor
  case toStamps => exact ledger.toStamps.keep (by simp) rfl
  case toBacklog => exact ledger.toBacklog.launch waits rfl rfl
  case toLaunchings =>
    exact ledger.toLaunchings.launch (ledger.waiting_noted _ inside) (ledger.waiting_new _ inside)
      (ledger.next_exact waits) rfl rfl rfl rfl
  case toCalls => exact ledger.toCalls.launch ledger.seq_new rfl
  case toReturns =>
    refine ledger.toReturns.keep (by simp) (fun _ => id) (fun _ => id) fun job member => ?_
    rcases List.mem_append.mp member with old | now
    · exact Or.inl ⟨job, old, rfl⟩
    · obtain rfl := List.mem_singleton.mp now
      exact Or.inr ledger.seq_new

theorem call {job : Job U} (ledger : Ledger history k r) (member : job ∈ r.jobs) :
    Ledger (history ++ [.called (.job k job.seq) job.unit]) k r := by
  obtain ⟨edit, launched, mine, _⟩ := ledger.job_launched job member
  constructor
  case toStamps => exact ledger.toStamps.keep (by simp) rfl
  case toBacklog => exact ledger.toBacklog.keep (by simp) rfl (Nat.le_refl _) (.refl _)
  case toLaunchings =>
    exact ledger.toLaunchings.keep (by simp) rfl (fun _ => id) (fun _ => id)
      fun job member => ⟨job, member, rfl, rfl, rfl⟩
  case toCalls => exact ledger.toCalls.call launched mine
  case toReturns =>
    exact ledger.toReturns.keep (by simp) (fun _ => id) (fun _ => id)
      fun job member => Or.inl ⟨job, member, rfl⟩

theorem called_job {job : Job U} (ledger : Ledger history k r) (member : job ∈ r.jobs)
    (called : (callMoment? history (.job k job.seq)).isSome) :
    .called (.job k job.seq) job.unit ∈ history := by
  obtain ⟨edit, launched, mine, _⟩ := ledger.job_launched job member
  obtain ⟨moment, found⟩ := Option.isSome_iff_exists.mp called
  obtain ⟨unit, entry⟩ := callMoment?_some found
  obtain ⟨edit', launched', mine'⟩ := ledger.called_launched _ _ (List.mem_of_getElem? entry)
  have equal := (ledger.launched_apart _ _ _ _ launched launched').mp rfl
  rw [← mine, equal, mine']
  exact List.mem_of_getElem? entry

theorem finish {job : Job U} {result : Except ParseFailure A} (ledger : Ledger history k r)
    (member : job ∈ r.jobs) (called : (callMoment? history (.job k job.seq)).isSome) :
    Ledger (history ++ [.returned (.job k job.seq) result]) k (r.deliver (job.parsed result)) where
  toStamps := ledger.toStamps.keep (by simp) rfl
  toBacklog := ledger.toBacklog.keep (by simp) rfl (Nat.le_refl _) (.refl _)
  toLaunchings := ledger.toLaunchings.keep (by simp) rfl (fun _ => id) (fun _ => id)
    fun job inside => ⟨job, (List.mem_filter.mp inside).1, rfl, rfl, rfl⟩
  toCalls := ledger.toCalls.keep (by simp) (by simp) (by simp) rfl
  toReturns := ledger.toReturns.finish member (ledger.job_launched job member)
    (ledger.called_job member called)

/-- The result taken is that of the parse in flight, so it is a result for the
very edit that was in flight. -/
theorem taken_edit {parsed : Parsed U A} {inflight : Inflight U} (ledger : Ledger history k r)
    (member : parsed ∈ r.results) (flies : r.inflight = some inflight)
    (same : inflight.seq = parsed.seq) :
    (⟨parsed, inflight.edit.stamp⟩ : Taken U A).edit = inflight.edit := by
  obtain ⟨edit, launched, unit, generation⟩ := (ledger.result_returned parsed member).launched
  have equal := (ledger.launched_apart _ _ _ _ (ledger.inflight_launched inflight flies) launched).mp same
  simp [Taken.edit, equal, ← unit, ← generation]

theorem take {parsed : Parsed U A} {rest : List (Parsed U A)} {inflight : Inflight U}
    {happening : Happening U A} (ledger : Ledger history k r) (results : r.results = parsed :: rest)
    (flies : r.inflight = some inflight) (same : inflight.seq = parsed.seq)
    (aside : happening.IsAside k) :
    Ledger (history ++ [happening]) k
      { r with results := rest, inflight := none, taken := some ⟨parsed, inflight.edit.stamp⟩ } := by
  have member : parsed ∈ r.results := by simp [results]
  have forgets : r.Forgets { r with results := rest, inflight := none, taken := none } :=
    { Reconciler.Forgets.refl r with
      results := fun later inside => by rw [results]; exact .tail _ inside
      inflight := nofun
      taken := nofun }
  refine { ledger.forget forgets aside with taken_launched := ?_, taken_returned := ?_ }
  · intro taken holds
    cases holds
    rw [ledger.taken_edit member flies same, ← same]
    exact List.mem_append_left _ (ledger.inflight_launched inflight flies)
  · intro taken holds
    cases holds
    exact (ledger.result_returned parsed member).grow _

/-- The accounts stay in order whatever the reconciler does. -/
theorem move [DecidableEq U] {p q : Provider U A} {after : Reconciler U A}
    {happening : Happening U A} (ledger : Ledger history k r)
    (effect : r.Effect history k p after q happening)
    (few : happening.isEdit = true → r.noted.toNat + 1 < UInt64.size) :
    Ledger (history ++ [happening]) k after := by
  have untaken : r.Forgets { r with taken := none } :=
    { Reconciler.Forgets.refl r with taken := nofun }
  cases effect with
  | noted free service same => exact ledger.note (few rfl) free (by rw [same])
  | refused gone => exact ledger.refuse (few rfl) trivial
  | called member new => exact ledger.call member
  | returned member called => exact ledger.finish member called
  | launched running idle none held => exact ledger.launch p none held
  | took running idle results flies same => exact ledger.take results flies same trivial
  | judged held free current => exact ledger.forget untaken trivial
  | outdated held stale => exact ledger.forget untaken trivial
  | forsook stopped forgets before after plain => exact ledger.forget forgets (plain.isAside k)
  | kept forgets last alive plain => exact ledger.forget forgets (plain.isAside k)
  | killed forgets dead plain => exact ledger.forget forgets (plain.isAside k)

end Ledger

end FreshTree
