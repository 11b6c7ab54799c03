import Yolov5Rknn.Proofs.QuickSort
import Yolov5Rknn.Logic.Greedy
import Mathlib.Data.Fin.VecNotation

/-! The passes of `nms`. A pass takes the class of a candidate from the rank it has, not
from the candidate, and removes candidates of every class; so the survivors are those
of class-wise greedy suppression only under a condition. -/

namespace Yolov5Rknn.PostProcess
open Program Greedy

variable {F : Type} {n : Nat}

section classes

variable {candidates : Fin n → Candidate F}

theorem mem_classSet {p : Fin n} : (candidates p).classId ∈ classSet candidates := by
  rw [classSet, List.mem_insertionSort, List.mem_dedup]
  exact List.mem_ofFn.mpr ⟨p, rfl⟩

theorem classSet_ascending : (classSet candidates).Pairwise (· < ·) := by
  have ordered := List.pairwise_insertionSort (· ≤ ·) (List.ofFn fun i => (candidates i).classId).dedup
  have distinct : (classSet candidates).Nodup :=
    (List.perm_insertionSort _ _).nodup_iff.mpr (List.nodup_dedup _)
  exact (ordered.and distinct).imp fun ⟨least, different⟩ => lt_of_le_of_ne least different

end classes

variable [Arithmetic F]
variable (candidates : Fin n → Candidate F) (threshold : F) (ranking : Equiv.Perm (Fin n))

/-- Two ranks hold boxes that overlap. -/
def Overlaps (p q : Fin n) : Prop :=
  threshold < overlap (candidates (ranking p)).box (candidates (ranking q)).box

instance decidableOverlaps : DecidableRel (Overlaps candidates threshold ranking) :=
  fun p q => inferInstanceAs
    (Decidable (threshold < overlap (candidates (ranking p)).box (candidates (ranking q)).box))

/-- The ranks that remove others when their turn comes: none of them is removed by
another one whose turn is before. -/
def heads : List (Fin n) :=
  select (fun p q => (candidates p).classId ≤ (candidates q).classId ∧ Overlaps candidates threshold ranking p q)
    (List.finRange n)

/-- Greedy selection among the candidates of one class. -/
def chosen : List (Fin n) :=
  select (fun p q => (candidates (ranking p)).classId = (candidates (ranking q)).classId ∧
    Overlaps candidates threshold ranking p q) (List.finRange n)

/-- `indexArray` with the ranks removed so far. -/
def masked (removed : Fin n → Bool) (p : Fin n) : Int := if removed p then -1 else (ranking p).val

variable {candidates threshold ranking} {removed : Fin n → Bool} {c : Int}

theorem masked_eq_iff {p : Fin n} : masked ranking removed p = -1 ↔ removed p = true := by
  unfold masked
  split
  · next gone => simp [gone]
  · next here =>
    simp only [here, Bool.false_eq_true, iff_false]
    omega

theorem nmsAgainst_eq {i j : Fin n} (class_eq : (candidates i).classId = c) :
    nmsAgainst (fun i => (candidates i).box) (fun i => (candidates i).classId) c threshold i (ranking i).val
        (masked ranking removed) j =
      pure (masked ranking
        (Function.update removed j (removed j || decide (Overlaps candidates threshold ranking i j)))) := by
  unfold nmsAgainst
  dsimp only
  by_cases gone : removed j = true
  · rw [if_pos (.inl (masked_eq_iff.mpr gone)), gone, Bool.true_or, ← gone, Function.update_eq_self]
  · have here : masked ranking removed j = (ranking j).val := if_neg gone
    rw [if_neg (by rw [masked_eq_iff]; simp [gone, class_eq]), here, fetch_inside, fetch_inside, pure_bind,
      pure_bind]
    congr 1
    funext p
    split
    · next overlaps =>
      by_cases same : p = j
      · subst same
        simp [masked, Overlaps, overlaps]
      · simp [masked, same]
    · next apart =>
      by_cases same : p = j
      · subst same
        simp [masked, Overlaps, apart]
      · simp [masked, same]

theorem sweep_eq {i : Fin n} (class_eq : (candidates i).classId = c) (rest : List (Fin n)) :
    rest.foldlM (nmsAgainst (fun i => (candidates i).box) (fun i => (candidates i).classId) c threshold i
        (ranking i).val) (masked ranking removed) =
      pure (masked ranking fun q =>
        removed q || decide (q ∈ rest) && decide (Overlaps candidates threshold ranking i q)) := by
  induction rest generalizing removed with
  | nil => simp
  | cons j rest ih =>
    rw [List.foldlM_cons, nmsAgainst_eq class_eq, pure_bind, ih]
    congr 2
    funext q
    by_cases same : q = j
    · subst same
      simp only [Function.update_self, List.mem_cons_self, decide_true, Bool.true_and]
      cases removed q <;> cases decide (Overlaps candidates threshold ranking i q) <;> simp
    · simp [same]

/-- One round of the outer loop of `nms`. -/
theorem nmsFrom_eq (i : Fin n) :
    nmsFrom (fun i => (candidates i).box) (fun i => (candidates i).classId) c threshold (masked ranking removed) i =
      pure (masked ranking fun q => removed q ||
        decide ((candidates i).classId = c ∧ removed i = false ∧ i < q ∧
          Overlaps candidates threshold ranking i q)) := by
  unfold nmsFrom
  split
  · next skipped =>
    congr 2
    funext q
    rw [masked_eq_iff] at skipped
    have missed : ¬((candidates i).classId = c ∧ removed i = false ∧ i < q ∧
        Overlaps candidates threshold ranking i q) := by
      intro missed
      simp [missed.1, missed.2.1] at skipped
    simp [missed]
  · next live =>
    rw [masked_eq_iff] at live
    push Not at live
    have here : masked ranking removed i = (ranking i).val := if_neg live.1
    rw [here, sweep_eq live.2]
    congr 2
    funext q
    simp [live.1, live.2]

theorem mem_heads {q : Fin n} : q ∈ heads candidates threshold ranking ↔
    ∀ p ∈ heads candidates threshold ranking, p < q →
      ¬((candidates p).classId ≤ (candidates q).classId ∧ Overlaps candidates threshold ranking p q) :=
  (mem_select_iff (List.pairwise_lt_finRange n)).trans (and_iff_right (List.mem_finRange q))

theorem mem_chosen {q : Fin n} : q ∈ chosen candidates threshold ranking ↔
    ∀ p ∈ chosen candidates threshold ranking, p < q →
      ¬((candidates (ranking p)).classId = (candidates (ranking q)).classId ∧
        Overlaps candidates threshold ranking p q) :=
  (mem_select_iff (List.pairwise_lt_finRange n)).trans (and_iff_right (List.mem_finRange q))

variable (candidates threshold ranking) in
/-- The removed ranks are those that heads whose turn is over overlap. -/
def Struck (done : Fin n → Prop) (order : Fin n → Int) : Prop :=
  ∃ removed, order = masked ranking removed ∧ ∀ q, removed q = true ↔
    ∃ p ∈ heads candidates threshold ranking, p < q ∧ Overlaps candidates threshold ranking p q ∧ done p

theorem Struck.imp {done done' : Fin n → Prop} {order : Fin n → Int}
    (struck : Struck candidates threshold ranking done order) (same : ∀ p, done p ↔ done' p) :
    Struck candidates threshold ranking done' order := by
  obtain ⟨removed, rfl, all⟩ := struck
  exact ⟨removed, rfl, fun q => (all q).trans (by simp only [same])⟩

/-- The turn of a rank. -/
theorem Struck.nmsFrom {done : Fin n → Prop} {order : Fin n → Int} {i : Fin n}
    (struck : Struck candidates threshold ranking done order)
    (turn : (candidates i).classId = c → ∀ p < i, done p ↔ (candidates p).classId ≤ (candidates i).classId) :
    Ends (PostProcess.nmsFrom (fun i => (candidates i).box) (fun i => (candidates i).classId) c threshold order i)
      (Struck candidates threshold ranking fun p => done p ∨ p = i ∧ (candidates i).classId = c) := by
  obtain ⟨removed, rfl, all⟩ := struck
  rw [nmsFrom_eq]
  refine .pure ⟨_, rfl, fun q => ?_⟩
  have live (same : (candidates i).classId = c) : removed i = false ↔ i ∈ heads candidates threshold ranking := by
    rw [mem_heads, ← Bool.not_eq_true, all i]
    constructor
    · intro free p head before ⟨least, overlaps⟩
      exact free ⟨p, head, before, overlaps, (turn same p before).mpr least⟩
    · intro free ended
      obtain ⟨p, head, before, overlaps, finished⟩ := ended
      exact free p head before ⟨(turn same p before).mp finished, overlaps⟩
  rw [Bool.or_eq_true, all q, decide_eq_true_iff]
  constructor
  · intro gone
    obtain ⟨p, head, before, overlaps, finished⟩ | ⟨same, here, before, overlaps⟩ := gone
    · exact ⟨p, head, before, overlaps, .inl finished⟩
    · exact ⟨i, (live same).mp here, before, overlaps, .inr ⟨rfl, same⟩⟩
  · intro struck
    obtain ⟨p, head, before, overlaps, finished | ⟨rfl, same⟩⟩ := struck
    · exact .inl ⟨p, head, before, overlaps, finished⟩
    · exact .inr ⟨same, (live same).mpr head, before, overlaps⟩

/-- The pass of a class. -/
theorem Struck.nms {order : Fin n → Int}
    (struck : Struck candidates threshold ranking (fun p => (candidates p).classId < c) order) :
    Ends (PostProcess.nms (fun i => (candidates i).box) (fun i => (candidates i).classId) c threshold order)
      (Struck candidates threshold ranking fun p => (candidates p).classId ≤ c) := by
  refine (Ends.foldlM
    (fun rest order => rest.Pairwise (· < ·) ∧ (∀ p ∉ rest, ∀ later ∈ rest, p < later) ∧
      Struck candidates threshold ranking
        (fun p => (candidates p).classId < c ∨ (candidates p).classId = c ∧ p ∉ rest) order)
    ?_ ⟨List.pairwise_lt_finRange n, by simp, struck.imp (by simp)⟩).imp ?_
  · intro i rest order ⟨ascending, earlier, struck⟩
    obtain ⟨first, ascending⟩ := List.pairwise_cons.mp ascending
    refine (struck.nmsFrom (i := i) fun same p before => ?_).imp fun order struck => ⟨ascending, ?_, ?_⟩
    · have passed : p ∉ i :: rest := by
        intro member
        cases member with
        | head => exact lt_irrefl _ before
        | tail _ later => exact lt_asymm before (first p later)
      simp only [passed, not_false_eq_true, and_true, same]
      exact le_iff_lt_or_eq.symm
    · intro p absent later member
      by_cases same : p = i
      · exact same ▸ first later member
      · exact earlier p (by simp [same, absent]) later (List.mem_cons_of_mem _ member)
    · refine struck.imp fun p => ?_
      by_cases same : p = i
      · subst same
        have absent : p ∉ rest := fun member => lt_irrefl _ (first p member)
        simp [absent]
      · simp [same]
  · intro order ⟨_, _, struck⟩
    exact struck.imp fun p => by simp [le_iff_lt_or_eq]

variable (candidates threshold ranking) in
/-- A candidate goes if a head ranked before it overlaps it. -/
def Left (survives : Fin n → Prop) : Prop :=
  ∀ q, ¬survives q ↔ ∃ p ∈ heads candidates threshold ranking, p < q ∧ Overlaps candidates threshold ranking p q

/-- A survivor is a head, since nothing that precedes it overlaps it. -/
theorem Left.head {survives : Fin n → Prop} (left : Left candidates threshold ranking survives) {p : Fin n}
    (stays : survives p) : p ∈ heads candidates threshold ranking :=
  mem_heads.mpr fun first other earlier hits => (left p).mpr ⟨first, other, earlier, hits.2⟩ stays

variable (candidates threshold ranking) in
/-- The passes of all classes. -/
theorem suppress_ends : Ends (suppress candidates threshold fun p => (ranking p).val)
    (Struck candidates threshold ranking fun _ => True) := by
  have start : Struck candidates threshold ranking (fun p => (candidates p).classId ∉ classSet candidates)
      fun p => (ranking p).val :=
    ⟨fun _ => false, rfl, fun q => by simp [mem_classSet]⟩
  refine (Ends.foldlM
    (fun rest order => rest.Pairwise (· < ·) ∧
      (∀ p, (candidates p).classId ∉ rest → ∀ later ∈ rest, (candidates p).classId < later) ∧
      Struck candidates threshold ranking (fun p => (candidates p).classId ∉ rest) order)
    ?_ ⟨classSet_ascending, fun p absent => absurd mem_classSet absent, start⟩).imp ?_
  · intro c rest order ⟨ascending, earlier, struck⟩
    obtain ⟨first, ascending⟩ := List.pairwise_cons.mp ascending
    have before (p : Fin n) : (candidates p).classId ∉ c :: rest ↔ (candidates p).classId < c := by
      refine ⟨fun absent => earlier p absent c List.mem_cons_self, fun less member => ?_⟩
      obtain same | later := List.mem_cons.mp member
      · exact less.ne same
      · exact lt_asymm less (first _ later)
    refine (struck.imp before).nms.imp fun order struck => ⟨ascending, ?_, struck.imp fun p => ?_⟩
    · intro p absent later member
      by_cases same : (candidates p).classId = c
      · exact same ▸ first later member
      · exact earlier p (by simp [same, absent]) later (List.mem_cons_of_mem _ member)
    · rw [le_iff_lt_or_eq, ← before]
      by_cases same : (candidates p).classId = c
      · simp only [same, or_true, true_iff]
        exact fun member => lt_irrefl c (first c member)
      · simp [same]
  · intro order ⟨_, _, struck⟩
    exact struck.imp fun p => by simp

section classwise

variable (candidates threshold ranking)

/-- Class-wise greedy suppression: a candidate goes if one of its class and of higher rank
stays and overlaps it. -/
def Classwise (survives : Fin n → Prop) : Prop :=
  ∀ q, ¬survives q ↔ ∃ p < q,
    (candidates (ranking p)).classId = (candidates (ranking q)).classId ∧ survives p ∧
      Overlaps candidates threshold ranking p q

/-- No candidate ranked before this one overlaps it. -/
def Leads (p : Fin n) : Prop := ∀ z < p, ¬Overlaps candidates threshold ranking z p

/-- A candidate that leads overlaps this one, and its turn does not come later. -/
def Silenced (p : Fin n) : Prop :=
  ∃ f < p, Leads candidates threshold ranking f ∧ (candidates f).classId ≤ (candidates p).classId ∧
    Overlaps candidates threshold ranking f p

/-- A candidate that leads overlaps this one and is of its class. -/
def Claimed (q : Fin n) : Prop :=
  ∃ f < q, Leads candidates threshold ranking f ∧
    (candidates (ranking f)).classId = (candidates (ranking q)).classId ∧ Overlaps candidates threshold ranking f q

/-- Whoever overlaps a later candidate that is not claimed is silenced, or is of the class of that
candidate and does not have its turn before one of this class that overlaps only itself. -/
def Aligned : Prop :=
  ∀ p q, p < q → Overlaps candidates threshold ranking p q → ¬Silenced candidates threshold ranking p →
    ¬Claimed candidates threshold ranking q →
      (candidates (ranking p)).classId = (candidates (ranking q)).classId ∧
        ∀ z < p, (candidates (ranking z)).classId = (candidates (ranking p)).classId →
          Overlaps candidates threshold ranking z p → ¬Overlaps candidates threshold ranking z q →
            (candidates z).classId ≤ (candidates p).classId

/-- Whoever a candidate that leads overlaps is also overlapped by one of its own class that no
candidate that leads overlaps. -/
def Led : Prop :=
  ∀ p q, p < q → Leads candidates threshold ranking p → Overlaps candidates threshold ranking p q →
    ∃ z < q, (candidates (ranking z)).classId = (candidates (ranking q)).classId ∧
      Overlaps candidates threshold ranking z q ∧
        ∀ f < z, Leads candidates threshold ranking f → ¬Overlaps candidates threshold ranking f z

/-- Whoever is overlapped by an earlier candidate is overlapped by one that leads. -/
def Shallow : Prop :=
  ∀ p q, p < q → Overlaps candidates threshold ranking p q →
    ∃ f < q, Leads candidates threshold ranking f ∧ Overlaps candidates threshold ranking f q

variable {candidates threshold ranking}

theorem classwise_iff_chosen {survives : Fin n → Prop} :
    Classwise candidates threshold ranking survives ↔
      ∀ q, survives q ↔ q ∈ chosen candidates threshold ranking := by
  constructor
  · intro classwise q
    refine mem_select_unique (List.pairwise_lt_finRange n) (fun item _ => ?_) (List.mem_finRange q)
    rw [← not_iff_not, classwise item]
    push Not
    constructor
    · intro suppressed
      obtain ⟨p, before, same, lives, overlaps⟩ := suppressed
      exact ⟨p, List.mem_finRange p, lives, before, same, overlaps⟩
    · intro attacked
      obtain ⟨p, _, lives, before, same, overlaps⟩ := attacked
      exact ⟨p, before, same, lives, overlaps⟩
  · intro same q
    rw [same q, mem_chosen]
    push Not
    constructor
    · intro attacked
      obtain ⟨p, lives, before, classes, overlaps⟩ := attacked
      exact ⟨p, before, classes, (same p).mpr lives, overlaps⟩
    · intro suppressed
      obtain ⟨p, before, classes, lives, overlaps⟩ := suppressed
      exact ⟨p, (same p).mp lives, before, classes, overlaps⟩

theorem Leads.head {f : Fin n} (leads : Leads candidates threshold ranking f) :
    f ∈ heads candidates threshold ranking :=
  mem_heads.mpr fun p _ before hits => leads p before hits.2

theorem Leads.chosen {f : Fin n} (leads : Leads candidates threshold ranking f) :
    f ∈ chosen candidates threshold ranking :=
  mem_chosen.mpr fun p _ before hits => leads p before hits.2

/-- By induction on the rank: a head that overlaps a candidate which greedy selection keeps would have been
removed by another one that is kept, were that one not overlapped by a head in turn. -/
theorem Aligned.harmless (aligned : Aligned candidates threshold ranking) (q : Fin n) :
    q ∈ chosen candidates threshold ranking → ∀ p ∈ heads candidates threshold ranking, p < q →
      ¬Overlaps candidates threshold ranking p q := by
  induction q using WellFoundedLT.induction with
  | _ q ih =>
    intro kept p head before overlaps
    have loud : ¬Silenced candidates threshold ranking p := by
      intro silenced
      obtain ⟨f, earlier, leads, turn, hits⟩ := silenced
      exact mem_heads.mp head f leads.head earlier ⟨turn, hits⟩
    have free : ¬Claimed candidates threshold ranking q := by
      intro claimed
      obtain ⟨f, earlier, leads, same, hits⟩ := claimed
      exact mem_chosen.mp kept f leads.chosen earlier ⟨same, hits⟩
    obtain ⟨same, turns⟩ := aligned p q before overlaps loud free
    have gone : p ∉ chosen candidates threshold ranking := fun member =>
      mem_chosen.mp kept p member before ⟨same, overlaps⟩
    rw [mem_chosen] at gone
    push Not at gone
    obtain ⟨z, stays, earlier, alike, hits⟩ := gone
    have apart : ¬Overlaps candidates threshold ranking z q := fun beyond =>
      mem_chosen.mp kept z stays (earlier.trans before) ⟨alike.trans same, beyond⟩
    have turn := turns z earlier alike hits apart
    have struck : z ∉ heads candidates threshold ranking := fun other =>
      mem_heads.mp head z other earlier ⟨turn, hits⟩
    rw [mem_heads] at struck
    push Not at struck
    obtain ⟨w, other, first, _, strikes⟩ := struck
    exact ih z (earlier.trans before) stays w other first strikes

theorem Aligned.classwise {survives : Fin n → Prop} (left : Left candidates threshold ranking survives)
    (aligned : Aligned candidates threshold ranking) : Classwise candidates threshold ranking survives := by
  have stays (q : Fin n) (member : q ∈ chosen candidates threshold ranking) : survives q := by
    by_contra gone
    obtain ⟨p, head, before, overlaps⟩ := (left q).mp gone
    exact aligned.harmless q member p head before overlaps
  rw [classwise_iff_chosen]
  intro q
  constructor
  · intro lives
    apply mem_chosen.mpr
    intro p member before hits
    exact (left q).mpr ⟨p, left.head (stays p member), before, hits.2⟩ lives
  · exact stays q

theorem Classwise.led {survives : Fin n → Prop} (left : Left candidates threshold ranking survives)
    (classwise : Classwise candidates threshold ranking survives) : Led candidates threshold ranking := by
  intro p q before leads overlaps
  have gone : ¬survives q := (left q).mpr ⟨p, leads.head, before, overlaps⟩
  obtain ⟨z, earlier, same, lives, hits⟩ := (classwise q).mp gone
  refine ⟨z, earlier, same, hits, ?_⟩
  intro f first leads strikes
  exact (left z).mpr ⟨f, leads.head, first, strikes⟩ lives

theorem Led.aligned (led : Led candidates threshold ranking) (shallow : Shallow candidates threshold ranking) :
    Aligned candidates threshold ranking := by
  intro p q before overlaps _ free
  obtain ⟨f, earlier, leads, hits⟩ := shallow p q before overlaps
  obtain ⟨z, first, same, strikes, alone⟩ := led f q earlier leads hits
  have leading : Leads candidates threshold ranking z := by
    intro w below reaches
    obtain ⟨g, nearer, heads, covers⟩ := shallow w z below reaches
    exact alone g nearer heads covers
  exact absurd ⟨z, first, leading, same, strikes⟩ free

end classwise

section exact

attribute [local instance] Arithmetic.ofField

variable {K : Type} [Field K] [LinearOrder K]

/-- The vectors after the sort. -/
def sortedBy (candidates : Fin n → Candidate K) (ranking : Equiv.Perm (Fin n)) : Sorting K n :=
  ⟨fun p => (candidates (ranking p)).prob, fun p => (ranking p).val⟩

theorem sortCandidates_ends (candidates : Fin n → Candidate K) :
    Ends (sortCandidates candidates) fun sorted => ∃ ranking : Equiv.Perm (Fin n),
      sorted = sortedBy candidates ranking ∧
      ∀ p q, p ≤ q → (candidates (ranking q)).prob ≤ (candidates (ranking p)).prob := by
  refine (quickSortIndiceInverse_ends _ le_rfl (by omega)).imp fun sorted ⟨⟨ranking, _, same⟩, descends⟩ => ?_
  obtain ⟨input, indices⟩ := sorted
  refine ⟨ranking, ?_, fun p q order => ?_⟩
  · exact congrArg₂ Sorting.mk (funext fun p => (same p).1) (funext fun p => (same p).2)
  · have := descends p q (by omega) order (by omega)
    rw [(same p).1, (same q).1] at this
    exact this

/-- What the sort and the passes of all classes leave. -/
theorem passes_end (candidates : Fin n → Candidate K) (nmsThreshold : K) :
    ∃ (ranking : Equiv.Perm (Fin n)) (order : Fin n → Int),
      (∀ p q, p ≤ q → (candidates (ranking q)).prob ≤ (candidates (ranking p)).prob) ∧
      Ends (sortCandidates candidates) (fun sorted => sorted = sortedBy candidates ranking) ∧
      Ends (suppress candidates nmsThreshold fun p => (ranking p).val) (fun result => result = order) ∧
      (∀ p, order p = -1 ∨ order p = (ranking p).val) ∧
      Left candidates nmsThreshold ranking (fun p => order p ≠ -1) := by
  obtain ⟨sorted, ⟨ranking, same, descends⟩, sorts⟩ := sortCandidates_ends candidates
  obtain ⟨order, ⟨removed, rfl, all⟩, passes⟩ :=
    suppress_ends candidates nmsThreshold ranking
  refine ⟨ranking, masked ranking removed, descends, ⟨sorted, same, sorts⟩, ⟨_, rfl, passes⟩, fun p => ?_, fun q => ?_⟩
  · unfold masked
    split
    · exact .inl rfl
    · exact .inr rfl
  · rw [not_not, masked_eq_iff, all q]
    simp only [and_true]

theorem surviving_ends {candidates : Fin n → Candidate K} {nmsThreshold : K} {ranking : Equiv.Perm (Fin n)}
    {order : Fin n → Int} (sorts : Ends (sortCandidates candidates) fun sorted => sorted = sortedBy candidates ranking)
    (passes : Ends (suppress candidates nmsThreshold fun p => (ranking p).val) fun result => result = order) :
    Ends (surviving candidates nmsThreshold) fun result => result = order := by
  refine sorts.bind fun sorted same => ?_
  rw [same]
  exact passes

theorem overlap_comm (a b : Box K) : overlap a b = overlap b a := by
  have least (x y : K) : (if y < x then y else x) = if x < y then x else y := by
    rcases lt_trichotomy x y with less | rfl | more
    · rw [if_pos less, if_neg less.not_gt]
    · rfl
    · rw [if_pos more, if_neg more.not_gt]
  have greatest (x y : K) : (if x < y then y else x) = if y < x then x else y := by
    rcases lt_trichotomy x y with less | rfl | more
    · rw [if_pos less, if_neg less.not_gt]
    · rfl
    · rw [if_pos more, if_neg more.not_gt]
  simp only [overlap, calculateOverlap, least (a.x + a.w), least (a.y + a.h), greatest a.x, greatest a.y,
    add_comm ((a.x + a.w - a.x + 1) * (a.y + a.h - a.y + 1))]

/-- No two survivors of the sort and of all passes overlap; every candidate that goes
overlaps one ranked before it, and the first one stays. -/
theorem survivors_apart (candidates : Fin n → Candidate K) (nmsThreshold : K) :
    ∃ (ranking : Equiv.Perm (Fin n)) (order : Fin n → Int),
      (∀ p q, p ≤ q → (candidates (ranking q)).prob ≤ (candidates (ranking p)).prob) ∧
      Ends (sortCandidates candidates) (fun sorted => sorted.indices = fun p => ((ranking p).val : Int)) ∧
      Ends (surviving candidates nmsThreshold) (fun result => result = order) ∧
      (∀ p, order p = -1 ∨ order p = (ranking p).val) ∧
      (∀ p q, p ≠ q → order p ≠ -1 → order q ≠ -1 →
        overlap (candidates (ranking p)).box (candidates (ranking q)).box ≤ nmsThreshold) ∧
      (∀ q, order q = -1 →
        ∃ p < q, nmsThreshold < overlap (candidates (ranking p)).box (candidates (ranking q)).box) ∧
      ∀ first : Fin n, first.val = 0 → order first ≠ -1 := by
  obtain ⟨ranking, order, descends, sorts, passes, indices, left⟩ := passes_end candidates nmsThreshold
  have apart (p q : Fin n) (before : p < q) (one : order p ≠ -1) (two : order q ≠ -1) :
      overlap (candidates (ranking p)).box (candidates (ranking q)).box ≤ nmsThreshold := by
    by_contra overlaps
    exact (left q).mpr ⟨p, left.head one, before, not_le.mp overlaps⟩ two
  refine ⟨ranking, order, descends, sorts.imp fun sorted same => congrArg Sorting.indices same,
    surviving_ends sorts passes, indices, fun p q different one two => ?_, fun q gone => ?_,
    fun first least stays => ?_⟩
  · rcases lt_or_gt_of_ne different with before | after
    · exact apart p q before one two
    · rw [overlap_comm]
      exact apart q p after two one
  · obtain ⟨p, _, before, overlaps⟩ := (left q).mp (not_not.mpr gone)
    exact ⟨p, before, overlaps⟩
  · obtain ⟨p, _, before, _⟩ := (left first).mp (not_not.mpr stays)
    have := Fin.lt_def.mp before
    omega

end exact

/-- Two boxes in one place whose classes differ. -/
def samplePair : Fin 2 → Candidate ℚ :=
  ![⟨⟨0, 0, 10, 10⟩, 9 / 10, 0⟩, ⟨⟨0, 0, 10, 10⟩, 8 / 10, 1⟩]

end Yolov5Rknn.PostProcess
