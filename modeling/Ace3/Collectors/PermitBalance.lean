import Ace3.Collectors.HuntManager
import Mathlib.Tactic.SplitIfs

/-!
# Balance of the Hunt Permits

A dispatch releases the semaphore that it finds in its hunt when it ends, which the next dispatch
of the hunt may have replaced by then. As long as that does not happen, the permits balance.
-/

namespace Ace3.Collectors

open Function

namespace HuntManager

open Lib.Runs

variable {kind : Concurrency} {mode : ExecutionMode} {m : HuntManager} {n k : Nat}

/-! ## §1 Operations -/

@[simp] theorem setPhase_phase (phase : DispatchPhase) :
    ((m.setPhase n phase).dispatches k).phase =
      if k = n then phase else (m.dispatches k).phase := by
  unfold setPhase
  by_cases hk : k = n
  · subst hk
    simp
  · simp [hk]

@[simp] theorem setPhase_hunt (phase : DispatchPhase) :
    ((m.setPhase n phase).dispatches k).hunt = (m.dispatches k).hunt := by
  unfold setPhase
  by_cases hk : k = n
  · subst hk
    simp
  · simp [hk]

@[simp] theorem setPhase_semaphore (phase : DispatchPhase) :
    ((m.setPhase n phase).dispatches k).semaphore = (m.dispatches k).semaphore := by
  unfold setPhase
  by_cases hk : k = n
  · subst hk
    simp
  · simp [hk]

@[simp] theorem setPhase_obtained (phase : DispatchPhase) :
    ((m.setPhase n phase).dispatches k).obtained = (m.dispatches k).obtained := by
  unfold setPhase
  by_cases hk : k = n
  · subst hk
    simp
  · simp [hk]

theorem releaseConcurrencyLock_eq (semaphore : Option Semaphore) :
    ∃ value held releases, m.releaseConcurrencyLock n semaphore = { m with value, held, releases } := by
  cases semaphore with
  | none => exact ⟨m.value, m.held, m.releases, rfl⟩
  | some semaphore => cases semaphore <;> exact ⟨_, _, _, rfl⟩

theorem releasesBy_releaseConcurrencyLock (semaphore : Option Semaphore) :
    (m.releaseConcurrencyLock n semaphore).releasesBy k =
      m.releasesBy k ++ if k = n then semaphore.toList else [] := by
  have hone : ∀ s : Semaphore,
      (((m.releases ++ [(n, s)]).filter (·.1 = k)).map (·.2)) =
        m.releasesBy k ++ if k = n then [s] else [] := by
    intro s
    by_cases hk : k = n
    · simp [releasesBy, hk]
    · simp [releasesBy, hk, Ne.symm hk]
  cases semaphore with
  | none => simp [releaseConcurrencyLock]
  | some semaphore =>
    cases semaphore with
    | shared => exact hone .shared
    | client c => exact hone (.client c)

def holders (m : HuntManager) : Finset Nat :=
  (Finset.range m.nextDispatch).filter fun n =>
    (m.dispatches n).obtained ∧ (m.dispatches n).phase ≠ .ended

theorem mem_holders : k ∈ m.holders ↔
    k < m.nextDispatch ∧ (m.dispatches k).obtained ∧ (m.dispatches k).phase ≠ .ended := by
  simp [holders]

variable {phase : DispatchPhase}

theorem holders_setPhase (hphase : phase ≠ .ended) (hn : (m.dispatches n).phase ≠ .ended) :
    (m.setPhase n phase).holders = m.holders := by
  ext k
  simp only [mem_holders, setPhase_obtained, setPhase_phase]
  by_cases hk : k = n
  · subst hk
    simp [hphase, hn, setPhase]
  · simp [hk, setPhase]

theorem holders_setPhase_ended : (m.setPhase n .ended).holders = m.holders.erase n := by
  ext k
  simp only [mem_holders, setPhase_obtained, setPhase_phase, Finset.mem_erase]
  by_cases hk : k = n
  · simp [hk]
  · simp [hk, setPhase]

/-! ## §2 Invariant -/

/-- What a dispatch got from `acquire_concurrency_lock`. -/
def Granted (n : Nat) (dispatch : Dispatch) : Concurrency → Prop
  | .unlimited => dispatch.semaphore = none ∧ dispatch.obtained = false
  | .localSemaphore _ => dispatch.semaphore = if dispatch.obtained then some .shared else none
  | .networkSemaphore _ => dispatch.semaphore = some (.client n)

/-- The permits that are not with a dispatch are in the semaphore. -/
def Pooled (m : HuntManager) : Concurrency → Prop
  | .unlimited => m.value = 0 ∧ m.held = ∅
  | .localSemaphore limit => m.value + m.holders.card = limit ∧ m.held = ∅
  | .networkSemaphore limit => m.value = 0 ∧ m.held = m.holders ∧ m.holders.card ≤ limit

theorem Pooled.of_eq {m' : HuntManager} (h : Pooled m kind) (hvalue : m'.value = m.value)
    (hheld : m'.held = m.held) (hholders : m'.holders = m.holders) : Pooled m' kind := by
  cases kind <;> simpa only [Pooled, hvalue, hheld, hholders] using h

/-- What holds of the semaphores: until a dispatch ends, its hunt has the semaphore of the
dispatch. -/
structure Accounts (kind : Concurrency) (m : HuntManager) : Prop where
  fresh : ∀ n, m.nextDispatch ≤ n → m.dispatches n = ⟨0, none, false, .ended⟩
  own : ∀ n, (m.dispatches n).phase ≠ .ended →
    m.semaphore (m.dispatches n).hunt = (m.dispatches n).semaphore
  released : ∀ n, m.releasesBy n =
    if (m.dispatches n).phase = .ended then (m.dispatches n).semaphore.toList else []
  granted : ∀ n < m.nextDispatch, Granted n (m.dispatches n) kind
  pooled : Pooled m kind

/-- What holds of the threads: the manager waits for a dispatch until it executes, and the
execution lock is held while one does. -/
structure Threads (kind : Concurrency) (m : HuntManager) : Prop where
  waiting : ∀ n, (m.dispatches n).phase = .acquired ∨ (m.dispatches n).phase = .starting →
    m.thread = .dispatching n ∨ m.thread = .executing n
  locked : ∀ n, (m.dispatches n).phase = .executing → m.locked (m.dispatches n).hunt = true
  alone : ∀ n k, (m.dispatches n).phase = .executing → (m.dispatches k).phase = .executing →
    (m.dispatches n).hunt = (m.dispatches k).hunt → n = k
  acquiring : ∀ hunt, m.thread = .acquiring hunt → m.locked hunt = false
  entitled : ∀ n, (m.dispatches n).phase ≠ .ended → kind = .unlimited ∨
    (m.dispatches n).obtained ∨ (m.dispatches n).phase = .acquired ∧ m.shutdown

theorem Accounts.lt (h : Accounts kind m) (hn : (m.dispatches n).phase ≠ .ended) :
    n < m.nextDispatch := by
  by_contra hge
  rw [h.fresh n (Nat.le_of_not_lt hge)] at hn
  exact hn rfl

theorem Accounts.mem_holders_iff (h : Accounts kind m) : n ∈ m.holders ↔
    (m.dispatches n).obtained ∧ (m.dispatches n).phase ≠ .ended := by
  rw [mem_holders]
  exact ⟨And.right, fun hn => ⟨h.lt hn.2, hn⟩⟩

theorem accounts_init : Accounts kind (init kind) where
  fresh _ _ := rfl
  own _ hn := absurd rfl hn
  released _ := rfl
  granted _ hn := absurd hn (Nat.not_lt_zero _)
  pooled := by cases kind <;> simp [Pooled, init, holders]

theorem threads_init : Threads kind (init kind) where
  waiting _ hn := by simp [init] at hn
  locked _ hn := by simp [init] at hn
  alone _ _ hn := by simp [init] at hn
  acquiring _ h := by simp [init] at h
  entitled _ hn := absurd rfl hn

theorem Accounts.setPhase (h : Accounts kind m) (hphase : phase ≠ .ended)
    (hn : (m.dispatches n).phase ≠ .ended) : Accounts kind (m.setPhase n phase) where
  fresh k hk := by
    have hkn : k ≠ n := by
      rintro rfl
      exact absurd (h.lt hn) (Nat.not_lt.mpr hk)
    have hkeep : (m.setPhase n phase).dispatches k = m.dispatches k := by
      simp [HuntManager.setPhase, hkn]
    rw [hkeep]
    exact h.fresh k hk
  own k hk := by
    simp only [setPhase_hunt, setPhase_semaphore]
    apply h.own k
    by_cases hkn : k = n
    · rw [hkn]
      exact hn
    · simpa [hkn] using hk
  released k := by
    have hreleased := h.released k
    simp only [setPhase_phase, setPhase_semaphore]
    by_cases hkn : k = n
    · subst hkn
      rw [if_neg hn] at hreleased
      rw [if_pos rfl, if_neg hphase]
      exact hreleased
    · rw [if_neg hkn]
      exact hreleased
  granted k hk := by
    have hgranted := h.granted k hk
    cases kind <;> simpa only [Granted, setPhase_semaphore, setPhase_obtained] using hgranted
  pooled := h.pooled.of_eq rfl rfl (holders_setPhase hphase hn)

theorem Accounts.endDispatch_eq (h : Accounts kind m) (hn : (m.dispatches n).phase ≠ .ended) :
    m.endDispatch n =
      (m.setPhase n .ended).releaseConcurrencyLock n (m.dispatches n).semaphore := by
  rw [HuntManager.endDispatch, h.own n hn]

theorem Pooled.release (h : Accounts kind m) (hn : (m.dispatches n).phase ≠ .ended) :
    Pooled ((m.setPhase n .ended).releaseConcurrencyLock n (m.dispatches n).semaphore) kind := by
  have hgranted := h.granted n (h.lt hn)
  have hpooled := h.pooled
  have hholder : n ∈ m.holders ↔ (m.dispatches n).obtained := by
    rw [h.mem_holders_iff]
    exact and_iff_left hn
  have hholders : ∀ s, ((m.setPhase n .ended).releaseConcurrencyLock n s).holders =
      m.holders.erase n := by
    intro s
    obtain ⟨value, held, releases, heq⟩ :=
      releaseConcurrencyLock_eq (m := m.setPhase n .ended) (n := n) s
    rw [heq]
    exact holders_setPhase_ended
  cases kind with
  | unlimited =>
    simp only [Granted] at hgranted
    rw [hgranted.1]
    exact hpooled
  | localSemaphore limit =>
    simp only [Granted] at hgranted
    simp only [Pooled] at hpooled ⊢
    rw [hholders]
    by_cases hobtained : (m.dispatches n).obtained
    · -- the permit goes from the holders back into the counter
      rw [if_pos hobtained] at hgranted
      rw [hgranted]
      have hcard := Finset.card_erase_add_one (hholder.mpr hobtained)
      refine ⟨?_, hpooled.2⟩
      show m.value + 1 + (m.holders.erase n).card = limit
      omega
    · rw [if_neg hobtained] at hgranted
      rw [hgranted, Finset.erase_eq_of_notMem (mt hholder.mp hobtained)]
      exact hpooled
  | networkSemaphore limit =>
    simp only [Granted] at hgranted
    simp only [Pooled] at hpooled ⊢
    rw [hholders, hgranted]
    refine ⟨hpooled.1, ?_, (Finset.card_le_card (Finset.erase_subset _ _)).trans hpooled.2.2⟩
    show m.held.erase n = m.holders.erase n
    rw [hpooled.2.1]

theorem Accounts.endDispatch (h : Accounts kind m) (hn : (m.dispatches n).phase ≠ .ended) :
    Accounts kind (m.endDispatch n) := by
  rw [h.endDispatch_eq hn]
  obtain ⟨value, held, releases, heq⟩ := releaseConcurrencyLock_eq (m := m.setPhase n .ended)
    (n := n) (m.dispatches n).semaphore
  have hdispatches : ((m.setPhase n .ended).releaseConcurrencyLock n
      (m.dispatches n).semaphore).dispatches = (m.setPhase n .ended).dispatches := by rw [heq]
  have hsemaphore : ((m.setPhase n .ended).releaseConcurrencyLock n
      (m.dispatches n).semaphore).semaphore = m.semaphore := by
    rw [heq]
    rfl
  have hnext : ((m.setPhase n .ended).releaseConcurrencyLock n
      (m.dispatches n).semaphore).nextDispatch = m.nextDispatch := by
    rw [heq]
    rfl
  refine ⟨?_, ?_, ?_, ?_, Pooled.release h hn⟩
  · intro k hk
    rw [hnext] at hk
    have hkn : k ≠ n := by
      rintro rfl
      exact absurd (h.lt hn) (Nat.not_lt.mpr hk)
    rw [hdispatches]
    have hkeep : (m.setPhase n .ended).dispatches k = m.dispatches k := by
      simp [HuntManager.setPhase, hkn]
    rw [hkeep]
    exact h.fresh k hk
  · intro k hk
    rw [hdispatches, setPhase_phase] at hk
    rw [hdispatches, hsemaphore, setPhase_hunt, setPhase_semaphore]
    by_cases hkn : k = n
    · rw [if_pos hkn] at hk
      exact absurd rfl hk
    · rw [if_neg hkn] at hk
      exact h.own k hk
  · intro k
    rw [releasesBy_releaseConcurrencyLock, hdispatches, setPhase_phase, setPhase_semaphore]
    have hreleased := h.released k
    by_cases hkn : k = n
    · -- it had released nothing before
      subst hkn
      rw [if_neg hn] at hreleased
      rw [if_pos rfl, if_pos rfl, if_pos rfl]
      show m.releasesBy k ++ _ = _
      rw [hreleased, List.nil_append]
    · rw [if_neg hkn, if_neg hkn, List.append_nil]
      exact hreleased
  · intro k hk
    rw [hnext] at hk
    have hgranted := h.granted k hk
    rw [hdispatches]
    cases kind <;> simpa only [Granted, setPhase_semaphore, setPhase_obtained] using hgranted

/-- What the manager does with what `acquire_concurrency_lock` returned. -/
def dispatched (m : HuntManager) (hunt : Nat) (semaphore : Option Semaphore) (obtained : Bool) :
    HuntManager :=
  { m with
    semaphore := Function.update m.semaphore hunt semaphore
    dispatches := Function.update m.dispatches m.nextDispatch ⟨hunt, semaphore, obtained, .acquired⟩
    nextDispatch := m.nextDispatch + 1
    thread := .dispatching m.nextDispatch }

variable {hunt : Nat} {semaphore : Option Semaphore} {obtained got : Bool} {m' : HuntManager}

@[simp] theorem dispatched_self : (m.dispatched hunt semaphore obtained).dispatches m.nextDispatch =
    ⟨hunt, semaphore, obtained, .acquired⟩ := by
  simp [dispatched]

theorem dispatched_of_ne (hn : n ≠ m.nextDispatch) :
    (m.dispatched hunt semaphore obtained).dispatches n = m.dispatches n := by
  simp [dispatched, hn]

theorem holders_dispatched : (m.dispatched hunt semaphore obtained).holders =
    if obtained then insert m.nextDispatch m.holders else m.holders := by
  ext k
  have hmem : k ∈ (m.dispatched hunt semaphore obtained).holders ↔
      k = m.nextDispatch ∧ obtained ∨ k ∈ m.holders := by
    rw [mem_holders, mem_holders]
    show k < m.nextDispatch + 1 ∧ _ ↔ _
    by_cases hk : k = m.nextDispatch
    · subst hk
      simp
    · rw [dispatched_of_ne hk]
      simp only [hk, false_and, false_or]
      constructor
      · exact fun ⟨hlt, hrest⟩ => ⟨by omega, hrest⟩
      · exact fun ⟨hlt, hrest⟩ => ⟨by omega, hrest⟩
  rw [hmem]
  cases obtained <;> simp

theorem nextDispatch_notMem_holders : m.nextDispatch ∉ m.holders := by
  simp [mem_holders]

theorem acquireConcurrencyLock_spec (hunt : Nat) (h : Pooled m kind)
    (hacquire : acquireConcurrencyLock kind m obtained = some (m', semaphore, got)) :
    (∃ value held, m' = { m with value, held }) ∧
      Granted m.nextDispatch ⟨hunt, semaphore, got, .acquired⟩ kind ∧
      Pooled (m'.dispatched hunt semaphore got) kind ∧
      (kind = .unlimited ∨ got = obtained) := by
  have hnew := nextDispatch_notMem_holders (m := m)
  cases kind with
  | unlimited =>
    cases hacquire
    exact ⟨⟨_, _, rfl⟩, ⟨rfl, rfl⟩, h, .inl rfl⟩
  | localSemaphore limit =>
    simp only [acquireConcurrencyLock] at hacquire
    split_ifs at hacquire with hobtained hvalue hshutdown
    · cases hacquire
      refine ⟨⟨_, _, rfl⟩, rfl, ⟨?_, h.2⟩, .inr hobtained.symm⟩
      have hsum := h.1
      rw [holders_dispatched]
      show m.value - 1 + (insert m.nextDispatch m.holders).card = limit
      rw [Finset.card_insert_of_notMem hnew]
      omega
    · cases hacquire
      refine ⟨⟨_, _, rfl⟩, rfl, ⟨?_, h.2⟩, .inr (Bool.eq_false_of_not_eq_true hobtained).symm⟩
      rw [holders_dispatched]
      exact h.1
  | networkSemaphore limit =>
    simp only [acquireConcurrencyLock] at hacquire
    split_ifs at hacquire with hobtained hlimit
    · cases hacquire
      refine ⟨⟨_, _, rfl⟩, rfl, ⟨h.1, ?_, ?_⟩, .inr hobtained.symm⟩
      · rw [holders_dispatched]
        show insert m.nextDispatch m.held = insert m.nextDispatch m.holders
        rw [h.2.1]
      · rw [holders_dispatched]
        show (insert m.nextDispatch m.holders).card ≤ limit
        rw [Finset.card_insert_of_notMem hnew, ← h.2.1]
        exact hlimit
    · cases hacquire
      refine ⟨⟨_, _, rfl⟩, rfl, ⟨h.1, ?_, ?_⟩, .inr (Bool.eq_false_of_not_eq_true hobtained).symm⟩
      · rw [holders_dispatched]
        exact h.2.1
      · rw [holders_dispatched]
        exact h.2.2

/-- The new semaphore of the hunt does no harm where it is the one that is already there, or no
thread will release it. -/
theorem Accounts.acquire (h : Accounts kind m)
    (hacquire : acquireConcurrencyLock kind m obtained = some (m', semaphore, got))
    (hown : ∀ n, (m.dispatches n).phase ≠ .ended → (m.dispatches n).hunt = hunt →
      (m.dispatches n).semaphore = semaphore) :
    Accounts kind (m'.dispatched hunt semaphore got) := by
  obtain ⟨⟨value, held, heq⟩, hgranted, hpooled, -⟩ := acquireConcurrencyLock_spec hunt h.pooled hacquire
  have hself : (m'.dispatched hunt semaphore got).dispatches m.nextDispatch =
      ⟨hunt, semaphore, got, .acquired⟩ := by
    rw [heq]
    exact dispatched_self
  have hkeep : ∀ n, n ≠ m.nextDispatch →
      (m'.dispatched hunt semaphore got).dispatches n = m.dispatches n := by
    intro n hn
    rw [heq]
    exact dispatched_of_ne hn
  have hsemaphore : (m'.dispatched hunt semaphore got).semaphore =
      Function.update m.semaphore hunt semaphore := by rw [heq]; rfl
  have hnext : (m'.dispatched hunt semaphore got).nextDispatch = m.nextDispatch + 1 := by
    rw [heq]; rfl
  have hreleases : ∀ n, (m'.dispatched hunt semaphore got).releasesBy n = m.releasesBy n := by
    intro n
    rw [heq]
    rfl
  refine ⟨?_, ?_, ?_, ?_, hpooled⟩
  · intro n hn
    rw [hnext] at hn
    rw [hkeep n (by omega)]
    exact h.fresh n (by omega)
  · intro n hn
    rw [hsemaphore]
    by_cases hnew : n = m.nextDispatch
    · rw [hnew, hself]
      exact update_self _ _ _
    · rw [hkeep n hnew] at hn ⊢
      by_cases hhunt : (m.dispatches n).hunt = hunt
      · rw [hhunt, update_self]
        exact (hown n hn hhunt).symm
      · rw [update_of_ne hhunt]
        exact h.own n hn
  · intro n
    have hreleased := h.released n
    rw [hreleases]
    by_cases hnew : n = m.nextDispatch
    · rw [hnew, h.fresh m.nextDispatch le_rfl] at hreleased
      rw [hnew, hself]
      exact hreleased
    · rw [hkeep n hnew]
      exact hreleased
  · intro n hn
    rw [hnext] at hn
    by_cases hnew : n = m.nextDispatch
    · rw [hnew, hself]
      exact hgranted
    · rw [hkeep n hnew]
      exact h.granted n (by omega)

theorem Threads.waiting_unique (h : Threads kind m)
    (hn : (m.dispatches n).phase = .acquired ∨ (m.dispatches n).phase = .starting)
    (hk : (m.dispatches k).phase = .acquired ∨ (m.dispatches k).phase = .starting) : k = n := by
  have hkthread := h.waiting k hk
  rcases h.waiting n hn with hthread | hthread
  · simpa [hthread, eq_comm] using hkthread
  · simpa [hthread, eq_comm] using hkthread

theorem Threads.setPhase (h : Threads kind m)
    (hphase : phase = .ended ∨ (m.dispatches n).phase ≠ .ended ∧
      (kind = .unlimited ∨ (m.dispatches n).obtained ∨ m.shutdown ∧ phase = .acquired))
    (hwaiting : phase = .acquired ∨ phase = .starting →
      m.thread = .dispatching n ∨ m.thread = .executing n)
    (hexecuting : phase ≠ .executing) : Threads kind (m.setPhase n phase) where
  waiting k hk := by
    rw [setPhase_phase] at hk
    by_cases hkn : k = n
    · subst hkn
      rw [if_pos rfl] at hk
      exact hwaiting hk
    · rw [if_neg hkn] at hk
      exact h.waiting k hk
  locked k hk := by
    rw [setPhase_phase] at hk
    by_cases hkn : k = n
    · rw [if_pos hkn] at hk
      exact absurd hk hexecuting
    · rw [if_neg hkn] at hk
      rw [setPhase_hunt]
      exact h.locked k hk
  alone j k hj hk hhunt := by
    rw [setPhase_phase] at hj hk
    by_cases hjn : j = n
    · rw [if_pos hjn] at hj
      exact absurd hj hexecuting
    · by_cases hkn : k = n
      · rw [if_pos hkn] at hk
        exact absurd hk hexecuting
      · rw [if_neg hjn] at hj
        rw [if_neg hkn] at hk
        rw [setPhase_hunt, setPhase_hunt] at hhunt
        exact h.alone j k hj hk hhunt
  acquiring hunt hthread := h.acquiring hunt hthread
  entitled k hk := by
    rw [setPhase_phase] at hk ⊢
    rw [setPhase_obtained]
    by_cases hkn : k = n
    · subst hkn
      rw [if_pos rfl] at hk ⊢
      rcases hphase with hended | ⟨-, hunlimited | hobtained | hshutdown⟩
      · exact absurd hended hk
      · exact .inl hunlimited
      · exact .inr (.inl hobtained)
      · exact .inr (.inr hshutdown.symm)
    · rw [if_neg hkn] at hk ⊢
      exact h.entitled k hk

theorem Threads.of_thread {thread : ManagerThread} (h : Threads kind m)
    (hwaiting : ∀ k, (m.dispatches k).phase = .acquired ∨ (m.dispatches k).phase = .starting →
      thread = .dispatching k ∨ thread = .executing k)
    (hacquiring : ∀ hunt, thread = .acquiring hunt → m.locked hunt = false) :
    Threads kind { m with thread } :=
  ⟨hwaiting, h.locked, h.alone, hacquiring, h.entitled⟩

theorem endDispatch_eq : ∃ value held releases,
    m.endDispatch n = { m.setPhase n .ended with value, held, releases } :=
  releaseConcurrencyLock_eq (m.semaphore (m.dispatches n).hunt)

theorem endDispatch_phase : ((m.endDispatch n).dispatches k).phase =
    if k = n then .ended else (m.dispatches k).phase := by
  obtain ⟨value, held, releases, heq⟩ := endDispatch_eq (m := m) (n := n)
  rw [heq]
  exact setPhase_phase .ended

theorem endDispatch_thread : (m.endDispatch n).thread = m.thread := by
  obtain ⟨value, held, releases, heq⟩ := endDispatch_eq (m := m) (n := n)
  rw [heq]
  rfl

theorem Threads.endDispatch (h : Threads kind m) : Threads kind (m.endDispatch n) := by
  have hended : Threads kind (m.setPhase n .ended) :=
    h.setPhase (.inl rfl) (by simp) (by simp)
  obtain ⟨value, held, releases, heq⟩ := endDispatch_eq (m := m) (n := n)
  rw [heq]
  exact ⟨hended.waiting, hended.locked, hended.alone, hended.acquiring, hended.entitled⟩

theorem Accounts.of_threads {shutdown : Bool} {locked : Nat → Bool} {thread : ManagerThread}
    (h : Accounts kind m) : Accounts kind { m with shutdown, locked, thread } :=
  ⟨h.fresh, h.own, h.released, h.granted, h.pooled.of_eq rfl rfl rfl⟩

structure Inv (kind : Concurrency) (m : HuntManager) : Prop where
  accounts : Accounts kind m
  threads : Threads kind m

theorem inv_init : Inv kind (init kind) := ⟨accounts_init, threads_init⟩

theorem inv_look (h : Inv kind m) : Inv kind (step kind mode m (.look hunt)) := by
  simp only [step]
  split_ifs with hready
  · refine ⟨h.accounts.of_threads, h.threads.of_thread ?_ ?_⟩
    · intro k hk
      have hthread := h.threads.waiting k hk
      rw [hready.1] at hthread
      simp at hthread
    · intro hunt' hthread
      cases hthread
      exact hready.2
  · exact h

theorem Threads.postProcessing_of_acquiring (h : Threads kind m) (ht : m.thread = .acquiring hunt)
    (hhunt : (m.dispatches n).hunt = hunt) (hn : (m.dispatches n).phase ≠ .ended) :
    (m.dispatches n).phase = .postProcessing := by
  cases hphase : (m.dispatches n).phase with
  | acquired => simpa [ht] using h.waiting n (.inl hphase)
  | starting => simpa [ht] using h.waiting n (.inr hphase)
  | executing =>
    have hlocked := h.locked n hphase
    rw [hhunt, h.acquiring hunt ht] at hlocked
    cases hlocked
  | postProcessing => rfl
  | ended => exact absurd hphase hn

theorem Threads.dispatched (h : Threads kind m) (ht : m.thread = .acquiring hunt)
    (hgot : kind = .unlimited ∨ got ∨ m.shutdown) :
    Threads kind (m.dispatched hunt semaphore got) where
  waiting k hk := by
    by_cases hnew : k = m.nextDispatch
    · rw [hnew]
      exact .inl rfl
    · rw [dispatched_of_ne hnew] at hk
      simpa [ht] using h.waiting k hk
  locked k hk := by
    by_cases hnew : k = m.nextDispatch
    · rw [hnew, dispatched_self] at hk
      cases hk
    · rw [dispatched_of_ne hnew] at hk ⊢
      exact h.locked k hk
  alone j k hj hk hhunt := by
    by_cases hjnew : j = m.nextDispatch
    · rw [hjnew, dispatched_self] at hj
      cases hj
    · by_cases hknew : k = m.nextDispatch
      · rw [hknew, dispatched_self] at hk
        cases hk
      · rw [dispatched_of_ne hjnew] at hj hhunt
        rw [dispatched_of_ne hknew] at hk hhunt
        exact h.alone j k hj hk hhunt
  acquiring _ hthread := nomatch hthread
  entitled k hk := by
    by_cases hnew : k = m.nextDispatch
    · rw [hnew, dispatched_self]
      rcases hgot with hunlimited | hgot | hshutdown
      · exact .inl hunlimited
      · exact .inr (.inl hgot)
      · exact .inr (.inr ⟨rfl, hshutdown⟩)
    · rw [dispatched_of_ne hnew] at hk ⊢
      exact h.entitled k hk

theorem inv_acquire (h : Inv kind m) (hu : Undisturbed kind m (.acquire obtained)) :
    Inv kind (step kind mode m (.acquire obtained)) := by
  cases ht : m.thread with
  | idle => simpa only [step, ht] using h
  | dispatching n => simpa only [step, ht] using h
  | executing n => simpa only [step, ht] using h
  | acquiring hunt =>
    simp only [Undisturbed, ht] at hu
    cases hacquire : acquireConcurrencyLock kind m obtained with
    | none => simpa only [step, ht, hacquire] using h
    | some result =>
      obtain ⟨m', semaphore, got⟩ := result
      have hstep : step kind mode m (.acquire obtained) = m'.dispatched hunt semaphore got := by
        simp only [step, ht, hacquire]
        rfl
      obtain ⟨⟨value, held, heq⟩, hgranted, -, hgot⟩ :=
        acquireConcurrencyLock_spec hunt h.accounts.pooled hacquire
      rw [hstep]
      refine ⟨h.accounts.acquire hacquire ?_, ?_⟩
      · -- an earlier run that is not over has the semaphore that is now put into the hunt
        intro n hn hhunt
        have hpost := h.threads.postProcessing_of_acquiring ht hhunt hn
        have hold := h.accounts.granted n (h.accounts.lt hn)
        rcases hu with rfl | ⟨-, ⟨hlocal, hobtained⟩ | hclear⟩
        · exact hold.1.trans hgranted.1.symm
        · cases kind with
          | unlimited => cases hlocal
          | networkSemaphore limit => cases hlocal
          | localSemaphore limit =>
            simp only [Granted] at hold hgranted
            have hent := h.threads.entitled n hn
            simp only [hpost, reduceCtorEq, false_and, or_false, false_or] at hent
            rw [hold, hgranted, if_pos hent, if_pos]
            rcases hgot with hunlimited | hgot
            · cases hunlimited
            · rw [hgot]
              exact hobtained
        · exact absurd hpost (hclear n (h.accounts.lt hn) hhunt)
      · have hthreads : Threads kind (m.dispatched hunt semaphore got) := by
          apply h.threads.dispatched ht
          rcases hu with hunlimited | ⟨hobtained, -⟩
          · exact .inl hunlimited
          · rcases hgot with hunlimited | rfl
            · exact .inl hunlimited
            · exact .inr hobtained
        rw [heq]
        exact ⟨hthreads.waiting, hthreads.locked, hthreads.alone, hthreads.acquiring,
          hthreads.entitled⟩

theorem inv_proceed {starts : Bool} (h : Inv kind m)
    (hu : Undisturbed kind m (.proceed starts)) :
    Inv kind (step kind mode m (.proceed starts)) := by
  cases ht : m.thread with
  | idle => simpa only [step, ht] using h
  | acquiring hunt => simpa only [step, ht] using h
  | executing n => simpa only [step, ht] using h
  | dispatching n =>
    have hpermit : (m.dispatches n).phase = .acquired → ¬m.shutdown → kind = .unlimited ∨
        (m.dispatches n).obtained ∨ m.shutdown ∧ DispatchPhase.starting = .acquired := by
      intro hphase hshutdown
      have hentitled := h.threads.entitled n (by simp [hphase])
      simp only [hphase, hshutdown, Bool.false_eq_true, and_false, or_false] at hentitled
      exact hentitled.imp_right .inl
    have hacquired : (m.dispatches n).phase = .acquired → (m.dispatches n).phase ≠ .ended := by
      intro hphase
      simp [hphase]
    simp only [step, ht]
    split_ifs with hphase hshutdown hmode hstarts
    · -- the manager shuts down
      have hn := hacquired hphase
      refine ⟨(h.accounts.endDispatch hn).of_threads, h.threads.endDispatch.of_thread ?_ ?_⟩
      · intro k hk
        rw [endDispatch_phase] at hk
        by_cases hkn : k = n
        · simp [hkn] at hk
        · rw [if_neg hkn] at hk
          exact absurd (h.threads.waiting_unique (.inl hphase) hk) hkn
      · exact fun _ hthread => nomatch hthread
    · -- the manager executes the hunt itself
      have hn := hacquired hphase
      refine ⟨(h.accounts.setPhase (by simp) hn).of_threads,
        (h.threads.setPhase (.inr ⟨hn, hpermit hphase hshutdown⟩) ?_ (by simp)).of_thread ?_ ?_⟩
      · exact fun _ => .inl ht
      · intro k hk
        rw [setPhase_phase] at hk
        by_cases hkn : k = n
        · exact .inr (congrArg _ hkn.symm)
        · rw [if_neg hkn] at hk
          exact absurd (h.threads.waiting_unique (.inl hphase) hk) hkn
      · exact fun _ hthread => nomatch hthread
    · have hn := hacquired hphase
      exact ⟨h.accounts.setPhase (by simp) hn,
        h.threads.setPhase (.inr ⟨hn, hpermit hphase hshutdown⟩) (fun _ => .inl ht) (by simp)⟩
    · -- the thread cannot be started, and has no permit
      have hn := hacquired hphase
      have hunlimited : kind = .unlimited :=
        hu.resolve_right (not_or.mpr ⟨hshutdown, hstarts⟩)
      subst hunlimited
      have hnothing : m.endDispatch n = m.setPhase n .ended := by
        rw [h.accounts.endDispatch_eq hn, (h.accounts.granted n (h.accounts.lt hn)).1]
        rfl
      have haccounts := h.accounts.endDispatch hn
      rw [hnothing] at haccounts
      refine ⟨haccounts.of_threads,
        (h.threads.setPhase (.inl rfl) (by simp) (by simp)).of_thread ?_ ?_⟩
      · intro k hk
        rw [setPhase_phase] at hk
        by_cases hkn : k = n
        · simp [hkn] at hk
        · rw [if_neg hkn] at hk
          exact absurd (h.threads.waiting_unique (.inl hphase) hk) hkn
      · exact fun _ hthread => nomatch hthread
    · exact h

theorem inv_begin (h : Inv kind m) : Inv kind (step kind mode m (.begin n)) := by
  simp only [step]
  by_cases hready : (m.dispatches n).phase = .starting ∧ m.locked (m.dispatches n).hunt = false
  · rw [if_pos hready]
    obtain ⟨hphase, hfree⟩ := hready
    have hn : (m.dispatches n).phase ≠ .ended := by simp [hphase]
    have hfirst : ∀ k, (m.dispatches k).phase = .executing →
        (m.dispatches k).hunt ≠ (m.dispatches n).hunt := by
      intro k hk hhunt
      have hlocked := h.threads.locked k hk
      rw [hhunt, hfree] at hlocked
      cases hlocked
    refine ⟨(h.accounts.setPhase (by simp) hn).of_threads, ?_, ?_, ?_, ?_, ?_⟩
    · intro k hk
      rw [setPhase_phase] at hk
      by_cases hkn : k = n
      · simp [hkn] at hk
      · rw [if_neg hkn] at hk
        exact absurd (h.threads.waiting_unique (.inr hphase) hk) hkn
    · intro k hk
      rw [setPhase_phase] at hk
      show Function.update m.locked (m.dispatches n).hunt true _ = true
      rw [setPhase_hunt]
      by_cases hhunt : (m.dispatches k).hunt = (m.dispatches n).hunt
      · rw [hhunt, update_self]
      · rw [update_of_ne hhunt]
        by_cases hkn : k = n
        · exact absurd (congrArg (fun i => (m.dispatches i).hunt) hkn) hhunt
        · rw [if_neg hkn] at hk
          exact h.threads.locked k hk
    · intro j k hj hk hhunt
      rw [setPhase_phase] at hj hk
      rw [setPhase_hunt, setPhase_hunt] at hhunt
      by_cases hjn : j = n
      · by_cases hkn : k = n
        · exact hjn.trans hkn.symm
        · rw [if_neg hkn] at hk
          rw [hjn] at hhunt
          exact absurd hhunt.symm (hfirst k hk)
      · rw [if_neg hjn] at hj
        by_cases hkn : k = n
        · rw [hkn] at hhunt
          exact absurd hhunt (hfirst j hj)
        · rw [if_neg hkn] at hk
          exact h.threads.alone j k hj hk hhunt
    · -- the manager waits for this dispatch, and for no semaphore
      intro hunt hthread
      rcases h.threads.waiting n (.inr hphase) with ht | ht
      · cases mode <;> simp [ht] at hthread
      · cases mode <;> simp [ht] at hthread
    · intro k hk
      rw [setPhase_phase] at hk ⊢
      rw [setPhase_obtained]
      by_cases hkn : k = n
      · rw [hkn, if_pos rfl]
        have hentitled := h.threads.entitled n hn
        simpa [hphase] using hentitled
      · rw [if_neg hkn] at hk ⊢
        exact h.threads.entitled k hk
  · rw [if_neg hready]
    exact h

theorem inv_executed (h : Inv kind m) : Inv kind (step kind mode m (.executed n)) := by
  simp only [step]
  split_ifs with hphase
  · have hn : (m.dispatches n).phase ≠ .ended := by simp [hphase]
    have hthreads : Threads kind (m.setPhase n .postProcessing) := by
      apply h.threads.setPhase (.inr ⟨hn, ?_⟩) (by simp) (by simp)
      have hentitled := h.threads.entitled n hn
      simp only [hphase, reduceCtorEq, false_and, or_false] at hentitled
      exact hentitled.imp_right .inl
    refine ⟨(h.accounts.setPhase (by simp) hn).of_threads, hthreads.waiting, ?_, hthreads.alone, ?_,
      hthreads.entitled⟩
    · intro k hk
      rw [setPhase_phase] at hk
      by_cases hkn : k = n
      · simp [hkn] at hk
      · -- a run of another hunt, for no other of this one executes
        rw [if_neg hkn] at hk
        have hhunt : (m.dispatches k).hunt ≠ (m.dispatches n).hunt :=
          fun hhunt => hkn (h.threads.alone k n hk hphase hhunt)
        show Function.update m.locked (m.dispatches n).hunt false _ = true
        rw [setPhase_hunt, update_of_ne hhunt]
        exact h.threads.locked k hk
    · intro hunt hthread
      show Function.update m.locked (m.dispatches n).hunt false hunt = false
      by_cases hhunt : hunt = (m.dispatches n).hunt
      · rw [hhunt, update_self]
      · rw [update_of_ne hhunt]
        exact h.threads.acquiring hunt hthread
  · exact h

theorem inv_finish (h : Inv kind m) : Inv kind (step kind mode m (.finish n)) := by
  simp only [step]
  by_cases hphase : (m.dispatches n).phase = .postProcessing
  · rw [if_pos hphase]
    have hn : (m.dispatches n).phase ≠ .ended := by simp [hphase]
    refine ⟨(h.accounts.endDispatch hn).of_threads, h.threads.endDispatch.of_thread ?_ ?_⟩
    · intro k hk
      rw [endDispatch_phase] at hk
      by_cases hkn : k = n
      · simp [hkn] at hk
      · rw [if_neg hkn] at hk
        have hthread := h.threads.waiting k hk
        rw [if_neg]
        · exact hthread
        · intro hexecuting
          rw [hexecuting] at hthread
          exact hkn (by simpa [eq_comm] using hthread)
    · intro hunt hthread
      by_cases hexecuting : m.thread = .executing n
      · rw [if_pos hexecuting] at hthread
        cases hthread
      · rw [if_neg hexecuting] at hthread
        apply h.threads.endDispatch.acquiring hunt
        rw [endDispatch_thread]
        exact hthread
  · rw [if_neg hphase]
    exact h

theorem inv_stop (h : Inv kind m) : Inv kind (step kind mode m .stop) := by
  refine ⟨h.accounts.of_threads, h.threads.waiting, h.threads.locked, h.threads.alone,
    h.threads.acquiring, ?_⟩
  intro n hn
  rcases h.threads.entitled n hn with hunlimited | hobtained | ⟨hphase, -⟩
  · exact .inl hunlimited
  · exact .inr (.inl hobtained)
  · exact .inr (.inr ⟨hphase, rfl⟩)

theorem inv_step (m : HuntManager) (event : HuntEvent) (h : Inv kind m)
    (hu : Undisturbed kind m event) : Inv kind (step kind mode m event) := by
  cases event with
  | look hunt => exact inv_look h
  | acquire obtained => exact inv_acquire h hu
  | proceed starts => exact inv_proceed h hu
  | begin n => exact inv_begin h
  | executed n => exact inv_executed h
  | finish n => exact inv_finish h
  | stop => exact inv_stop h

/-! ## §3 Balance -/

theorem Accounts.semaphore_of_release (h : Accounts kind m) {release : Nat × Semaphore}
    (hrelease : release ∈ m.releases) :
    (m.dispatches release.1).semaphore = some release.2 := by
  have hmem : release.2 ∈ m.releasesBy release.1 :=
    List.mem_map.mpr ⟨release, List.mem_filter.mpr ⟨hrelease, by simp⟩, rfl⟩
  rw [h.released] at hmem
  by_cases hended : (m.dispatches release.1).phase = .ended
  · rw [if_pos hended] at hmem
    exact Option.mem_toList.mp hmem
  · rw [if_neg hended] at hmem
    cases hmem

theorem Inv.executing_subset_holders (h : Inv kind m) (hkind : kind ≠ .unlimited)
    {executing : Finset Nat}
    (hexecuting : ∀ n ∈ executing, (m.dispatches n).phase = .executing) :
    executing ⊆ m.holders := by
  intro n hn
  have hphase := hexecuting n hn
  have hended : (m.dispatches n).phase ≠ .ended := by simp [hphase]
  have hentitled := h.threads.entitled n hended
  simp only [hphase, reduceCtorEq, false_and, or_false] at hentitled
  exact h.accounts.mem_holders_iff.mpr ⟨hentitled.resolve_left hkind, hended⟩

theorem Inv.balanced (h : Inv kind m) : Balanced kind m where
  released n _ _ := h.accounts.released n
  own release hrelease := h.accounts.semaphore_of_release hrelease
  limited limit hlimit executing hexecuting := by
    have hpooled := h.accounts.pooled
    rcases hlimit with rfl | rfl
    · have hcard := Finset.card_le_card (h.executing_subset_holders (by simp) hexecuting)
      have hsum := hpooled.1
      omega
    · have hcard := Finset.card_le_card (h.executing_subset_holders (by simp) hexecuting)
      exact hcard.trans hpooled.2.2
  returned hended := by
    have hpooled := h.accounts.pooled
    have hnone : m.holders = ∅ := by
      apply Finset.eq_empty_of_forall_notMem
      intro n hn
      have hholder := mem_holders.mp hn
      exact hholder.2.2 (hended n hholder.1)
    cases kind with
    | unlimited => exact hpooled
    | localSemaphore limit =>
      simp only [Pooled, hnone, Finset.card_empty, Nat.add_zero] at hpooled
      exact hpooled
    | networkSemaphore limit =>
      simp only [Pooled, hnone] at hpooled
      exact ⟨hpooled.1, hpooled.2.1⟩

/-- In every run in which no semaphore is put into a hunt while an earlier run of it still has to
release its own, permits are missing at shutdown only, and the threads that are to have them can be
started, the permits balance at all times. -/
theorem permits_balance (kind : Concurrency) (mode : ExecutionMode) (events : List HuntEvent)
    (h : Along (step kind mode) (Undisturbed kind) (init kind) events) :
    Along (step kind mode) (fun m event => Balanced kind (step kind mode m event)) (init kind)
      events :=
  h.of_invariant (Inv kind) inv_step (fun m event hinv hu => (inv_step m event hinv hu).balanced)
    inv_init

/-- Two runs of two hunts under a network semaphore that grants two permits. -/
theorem permits_balance_two : Along (step (.networkSemaphore 2) .continuous)
    (fun m event => Balanced (.networkSemaphore 2) (step (.networkSemaphore 2) .continuous m event))
    (init (.networkSemaphore 2))
    [.look 0, .acquire true, .proceed true, .begin 0, .look 1, .acquire true, .proceed true,
      .begin 1, .executed 0, .finish 0, .executed 1, .finish 1] :=
  permits_balance _ _ _ (by decide)

/-- A hunt is dispatched again while its first run is being post-processed. The first run then
releases the permit of the second. -/
theorem redispatch_not_balanced : ¬ Along (step (.networkSemaphore 2) .continuous)
    (fun m event => Balanced (.networkSemaphore 2) (step (.networkSemaphore 2) .continuous m event))
    (init (.networkSemaphore 2))
    [.look 0, .acquire true, .proceed true, .begin 0, .executed 0, .look 0, .acquire true,
      .finish 0] := by
  intro h
  let before : List HuntEvent :=
    [.look 0, .acquire true, .proceed true, .begin 0, .executed 0, .look 0, .acquire true]
  have hfinish : Balanced _ (step _ _ _ (.finish 0)) := h.at before
  have hown := hfinish.own (0, .client 1) (by decide)
  revert hown
  decide

end HuntManager

end Ace3.Collectors
