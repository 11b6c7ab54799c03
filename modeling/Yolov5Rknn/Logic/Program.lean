import Mathlib.Order.WellFounded
import Mathlib.Data.List.Basic

/-! Loops that may run forever and accesses that may leave their range. A program
is given the number of rounds its loops may take; running out of them and leaving
the range are faults of their own. -/

namespace Yolov5Rknn.Program

inductive Fault where
  | rounds
  | range
  deriving DecidableEq

abbrev Prog (α : Type) : Type := ReaderT Nat (Except Fault) α

/-- How one round of a loop ends. -/
inductive Turn (σ α : Type) where
  | again (state : σ)
  | done (result : α)

variable {σ α β ι : Type}

def outOfRange : Prog α := fun _ => .error .range

/-- An access that its index may miss. -/
def within : Option α → Prog α
  | none => outOfRange
  | some value => pure value

/-- A cell of a vector, at a position that may be outside it. -/
def fetch {n : Nat} (cells : Fin n → α) (position : Int) : Prog α :=
  if inside : 0 ≤ position ∧ position.toNat < n then pure (cells ⟨position.toNat, inside.2⟩) else outOfRange

def store {n : Nat} (cells : Fin n → α) (position : Int) (value : α) : Prog (Fin n → α) :=
  if inside : 0 ≤ position ∧ position.toNat < n then
    pure (Function.update cells ⟨position.toNat, inside.2⟩ value)
  else outOfRange

@[simp] theorem fetch_inside {n : Nat} (cells : Fin n → α) (position : Fin n) :
    fetch cells position.val = pure (cells position) :=
  dif_pos ⟨Int.natCast_nonneg _, position.isLt⟩

@[simp] theorem store_inside {n : Nat} (cells : Fin n → α) (position : Fin n) (value : α) :
    store cells position.val value = pure (Function.update cells position value) :=
  dif_pos ⟨Int.natCast_nonneg _, position.isLt⟩

def iterate (body : σ → Except Fault (Turn σ α)) : Nat → σ → Except Fault α
  | 0, _ => .error .rounds
  | rounds + 1, state =>
    match body state with
    | .error fault => .error fault
    | .ok (.again next) => iterate body rounds next
    | .ok (.done result) => .ok result

def loop (body : σ → Prog (Turn σ α)) (state : σ) : Prog α :=
  fun rounds => iterate (body · rounds) rounds state

def Turn.map {σ' β : Type} (onward : σ → σ') (finish : α → β) : Turn σ α → Turn σ' β
  | .again state => .again (onward state)
  | .done result => .done (finish result)

/-- A loop over items that may return from inside. -/
def walk (body : σ → ι → Prog (Turn σ α)) : List ι → σ → Prog (Turn σ α)
  | [], state => pure (.again state)
  | item :: rest, state => do
    match ← body state item with
    | .again next => walk body rest next
    | .done result => pure (.done result)

def Turn.Meets (again : σ → Prop) (done : α → Prop) : Turn σ α → Prop
  | .again state => again state
  | .done result => done result

theorem Turn.Meets.imp {again again' : σ → Prop} {done done' : α → Prop} {turn : Turn σ α}
    (met : turn.Meets again done) (onward : ∀ state, again state → again' state)
    (finished : ∀ result, done result → done' result) : turn.Meets again' done' := by
  cases turn with
  | again state => exact onward state met
  | done result => exact finished result met

theorem Turn.Meets.both {again again' : σ → Prop} {done done' : α → Prop} {turn : Turn σ α}
    (one : turn.Meets again done) (two : turn.Meets again' done') :
    turn.Meets (fun state => again state ∧ again' state) fun result => done result ∧ done' result := by
  cases turn with
  | again state => exact ⟨one, two⟩
  | done result => exact ⟨one, two⟩

theorem Turn.Meets.map {σ' : Type} {again : σ' → Prop} {done : β → Prop} {onward : σ → σ'} {finish : α → β}
    {turn : Turn σ α} (met : turn.Meets (fun state => again (onward state)) fun result => done (finish result)) :
    (turn.map onward finish).Meets again done := by
  cases turn with
  | again state => exact met
  | done result => exact met

/-- The computation ran out of rounds or has a result that satisfies `post`. -/
def Returns (computed : Except Fault α) (post : α → Prop) : Prop :=
  computed = .error .rounds ∨ ∃ result, computed = .ok result ∧ post result

/-- The program stays in range whatever its rounds, and its results satisfy `post`. -/
def Keeps (program : Prog α) (post : α → Prop) : Prop := ∀ rounds, Returns (program rounds) post

/-- The program has one result for every sufficiently large number of rounds. -/
def Ends (program : Prog α) (post : α → Prop) : Prop :=
  ∃ result, post result ∧ ∃ bound, ∀ rounds, bound ≤ rounds → program rounds = .ok result

section result

variable {program : Prog α} {next : α → Prog β} {rounds : Nat} {final : β}

theorem bind_result : (program >>= next) rounds = .ok final ↔
    ∃ middle, program rounds = .ok middle ∧ next middle rounds = .ok final := by
  change (program rounds >>= fun result => next result rounds) = _ ↔ _
  cases program rounds with
  | error fault => simp [bind, Except.bind]
  | ok middle => simp [bind, Except.bind]

theorem pure_result {result : β} : (pure result : Prog β) rounds = .ok final ↔ result = final := by
  change (Except.ok result : Except Fault β) = _ ↔ _
  simp

/-- The invariant rule for folds that returned; the invariant may name the items
still to come. -/
theorem foldlM_result {body : σ → ι → Prog σ} (holds : List ι → σ → Prop)
    (kept : ∀ item rest state next, holds (item :: rest) state → body state item rounds = .ok next →
      holds rest next)
    {items : List ι} {state last : σ} (initially : holds items state)
    (returned : items.foldlM body state rounds = .ok last) : holds [] last := by
  induction items generalizing state with
  | nil => exact pure_result.mp returned ▸ initially
  | cons item rest ih =>
    rw [List.foldlM_cons] at returned
    obtain ⟨middle, taken, remaining⟩ := bind_result.mp returned
    exact ih (kept item rest state middle initially taken) remaining

end result

section keeps

variable {program : Prog α} {next : α → Prog β} {first last : α → Prop} {post : β → Prop}

theorem Keeps.result (kept : Keeps program first) {rounds : Nat} {result : α}
    (returned : program rounds = .ok result) : first result := by
  obtain missing | ⟨other, same, holds⟩ := kept rounds
  · rw [missing] at returned
    cases returned
  · rw [same] at returned
    cases returned
    exact holds

theorem Keeps.inRange (kept : Keeps program first) (rounds : Nat) : program rounds ≠ .error .range := by
  obtain missing | ⟨result, same, _⟩ := kept rounds
  · simp [missing]
  · simp [same]

/-- What holds of every result may be used after it. -/
theorem Keeps.resulting (kept : Keeps program first)
    (results : ∀ rounds result, program rounds = .ok result → last result) : Keeps program last := by
  intro rounds
  obtain missing | ⟨result, same, _⟩ := kept rounds
  · exact .inl missing
  · exact .inr ⟨result, same, results rounds result same⟩

theorem Keeps.imp (kept : Keeps program first) (implies : ∀ result, first result → last result) :
    Keeps program last := by
  intro rounds
  obtain missing | ⟨result, same, holds⟩ := kept rounds
  · exact .inl missing
  · exact .inr ⟨result, same, implies result holds⟩

theorem Keeps.pure {result : α} (holds : first result) : Keeps (Pure.pure result) first :=
  fun _ => .inr ⟨result, rfl, holds⟩

theorem Keeps.bind (kept : Keeps program first) (rest : ∀ result, first result → Keeps (next result) post) :
    Keeps (program >>= next) post := by
  intro rounds
  obtain missing | ⟨result, same, holds⟩ := kept rounds
  · left
    change (program rounds >>= fun result => next result rounds) = _
    rw [missing]
    rfl
  · change Returns (program rounds >>= fun result => next result rounds) post
    rw [same]
    exact rest result holds rounds

theorem Keeps.map {f : α → β} (kept : Keeps program fun result => post (f result)) :
    Keeps (f <$> program) post := by
  have bound : Keeps (program >>= fun result => Pure.pure (f result)) post :=
    kept.bind fun _ holds => .pure holds
  rwa [← map_eq_pure_bind] at bound

theorem iterate_returns {body : σ → Except Fault (Turn σ α)} (holds : σ → Prop)
    (kept : ∀ state, holds state → Returns (body state) (Turn.Meets holds first))
    (rounds : Nat) {state : σ} (initially : holds state) : Returns (iterate body rounds state) first := by
  induction rounds generalizing state with
  | zero => exact .inl rfl
  | succ rounds ih =>
    obtain missing | ⟨turn, same, met⟩ := kept state initially
    · exact .inl (by simp [iterate, missing])
    · cases turn with
      | again next => simpa only [iterate, same] using ih met
      | done result => exact .inr ⟨result, by simp [iterate, same], met⟩

/-- The invariant rule for loops. -/
theorem Keeps.loop {body : σ → Prog (Turn σ α)} (holds : σ → Prop)
    (kept : ∀ state, holds state → Keeps (body state) (Turn.Meets holds first))
    {state : σ} (initially : holds state) : Keeps (loop body state) first :=
  fun rounds => iterate_returns holds (fun state held => kept state held rounds) rounds initially

/-- The invariant rule for folds; the invariant may name the items still to come. -/
theorem Keeps.foldlM {body : σ → ι → Prog σ} (holds : List ι → σ → Prop)
    (kept : ∀ item rest state, holds (item :: rest) state → Keeps (body state item) (holds rest))
    {items : List ι} {state : σ} (initially : holds items state) :
    Keeps (items.foldlM body state) (holds []) := by
  induction items generalizing state with
  | nil => exact .pure initially
  | cons item rest ih =>
    rw [List.foldlM_cons]
    exact (kept item rest state initially).bind fun next held => ih held

end keeps

section ends

variable {program : Prog α} {next : α → Prog β} {first last : α → Prop} {post : β → Prop}

theorem Ends.imp (ended : Ends program first) (implies : ∀ result, first result → last result) :
    Ends program last := by
  obtain ⟨result, holds, returned⟩ := ended
  exact ⟨result, implies result holds, returned⟩

/-- What holds of every result holds of the one the program ends with. -/
theorem Ends.resulting (ended : Ends program first)
    (results : ∀ rounds result, program rounds = .ok result → last result) :
    Ends program fun result => first result ∧ last result := by
  obtain ⟨result, holds, bound, returned⟩ := ended
  exact ⟨result, ⟨holds, results bound result (returned bound le_rfl)⟩, bound, returned⟩

theorem Ends.keep (ended : Ends program first) (kept : Keeps program last) :
    Ends program fun result => first result ∧ last result :=
  ended.resulting fun _ _ returned => kept.result returned

/-- A program ends with one result only. -/
theorem Ends.same (one : Ends program first) (two : Ends program last) : ∃ result, first result ∧ last result := by
  obtain ⟨result, holds, bound, returned⟩ := one
  obtain ⟨other, also, limit, again⟩ := two
  have equal := (returned _ (le_max_left bound limit)).symm.trans (again _ (le_max_right bound limit))
  cases equal
  exact ⟨result, holds, also⟩

theorem Ends.pure {result : α} (holds : first result) : Ends (Pure.pure result) first :=
  ⟨result, holds, 0, fun _ _ => rfl⟩

theorem Ends.bind (ended : Ends program first) (rest : ∀ result, first result → Ends (next result) post) :
    Ends (program >>= next) post := by
  obtain ⟨result, holds, bound, returned⟩ := ended
  obtain ⟨final, finished, enough, continued⟩ := rest result holds
  refine ⟨final, finished, max bound enough, fun rounds large => ?_⟩
  change (program rounds >>= fun result => next result rounds) = _
  rw [returned rounds ((le_max_left _ _).trans large)]
  exact continued rounds ((le_max_right _ _).trans large)

theorem iterate_ends {body : σ → Prog (Turn σ α)} {less : σ → σ → Prop} (founded : WellFounded less)
    (holds : σ → Prop)
    (kept : ∀ state, holds state →
      Ends (body state) (Turn.Meets (fun next => holds next ∧ less next state) first))
    {state : σ} (initially : holds state) :
    ∃ result, first result ∧ ∃ bound, ∀ rounds left, bound ≤ rounds → bound ≤ left →
      iterate (body · rounds) left state = .ok result := by
  induction state using founded.induction with
  | _ state ih =>
    obtain ⟨turn, met, bound, returned⟩ := kept state initially
    cases turn with
    | done result =>
      refine ⟨result, met, bound + 1, fun rounds left large enough => ?_⟩
      obtain ⟨left, rfl⟩ := Nat.exists_eq_add_one.mpr (Nat.lt_of_lt_of_le (Nat.succ_pos bound) enough)
      simp [iterate, returned rounds (Nat.le_of_succ_le large)]
    | again next =>
      obtain ⟨result, finished, more, continued⟩ := ih next met.2 met.1
      refine ⟨result, finished, max bound more + 1, fun rounds left large enough => ?_⟩
      obtain ⟨left, rfl⟩ := Nat.exists_eq_add_one.mpr (Nat.lt_of_lt_of_le (Nat.succ_pos _) enough)
      simp only [iterate, returned rounds (by omega)]
      exact continued rounds left (by omega) (by omega)

/-- The rule for loops with a measure. -/
theorem Ends.loop {body : σ → Prog (Turn σ α)} {less : σ → σ → Prop} (founded : WellFounded less)
    (holds : σ → Prop)
    (kept : ∀ state, holds state →
      Ends (body state) (Turn.Meets (fun next => holds next ∧ less next state) first))
    {state : σ} (initially : holds state) : Ends (loop body state) first := by
  obtain ⟨result, finished, bound, returned⟩ := iterate_ends founded holds kept initially
  exact ⟨result, finished, bound, fun rounds large => returned rounds rounds large large⟩

/-- The rule for folds; the invariant may name the items still to come. -/
theorem Ends.foldlM {body : σ → ι → Prog σ} (holds : List ι → σ → Prop)
    (kept : ∀ item rest state, holds (item :: rest) state → Ends (body state item) (holds rest))
    {items : List ι} {state : σ} (initially : holds items state) :
    Ends (items.foldlM body state) (holds []) := by
  induction items generalizing state with
  | nil => exact .pure initially
  | cons item rest ih =>
    rw [List.foldlM_cons]
    exact (kept item rest state initially).bind fun next held => ih held

/-- The rule for a loop over the positions from `first` on; the invariant names the next one. -/
theorem Ends.range {body : σ → Nat → Prog σ} (holds : Nat → σ → Prop) {start stop : Nat} (ordered : start ≤ stop)
    (kept : ∀ k state, start ≤ k → k < stop → holds k state → Ends (body state k) (holds (k + 1)))
    {state : σ} (initially : holds start state) :
    Ends ((List.range' start (stop - start)).foldlM body state) (holds stop) := by
  induction count : stop - start generalizing start state with
  | zero =>
    have same : start = stop := by omega
    exact .pure (same ▸ initially)
  | succ count ih =>
    rw [List.range'_succ, List.foldlM_cons]
    refine (kept start state le_rfl (by omega) initially).bind fun next held => ?_
    exact ih (by omega) (fun k state later => kept k state (by omega)) held (by omega)

/-- The same for a loop that may return from inside. -/
theorem Ends.walk {body : σ → Nat → Prog (Turn σ α)} (holds : Nat → σ → Prop) {start stop : Nat}
    (ordered : start ≤ stop)
    (kept : ∀ k state, start ≤ k → k < stop → holds k state → Ends (body state k) (Turn.Meets (holds (k + 1)) first))
    {state : σ} (initially : holds start state) :
    Ends (walk body (List.range' start (stop - start)) state) (Turn.Meets (holds stop) first) := by
  induction count : stop - start generalizing start state with
  | zero =>
    have same : start = stop := by omega
    exact .pure (same ▸ initially)
  | succ count ih =>
    rw [List.range'_succ]
    refine (kept start state le_rfl (by omega) initially).bind fun turn met => ?_
    cases turn with
    | again next => exact ih (by omega) (fun k state later => kept k state (by omega)) met (by omega)
    | done result => exact .pure met

end ends

section steady

variable {program : Prog α} {next : α → Prog β} {post : α → Prop}

/-- A program without loops computes the same whatever its rounds. -/
def Steady (program : Prog α) : Prop := ∀ rounds other, program rounds = program other

theorem Steady.pure {result : α} : Steady (Pure.pure result : Prog α) := fun _ _ => rfl

theorem Steady.outOfRange : Steady (outOfRange : Prog α) := fun _ _ => rfl

theorem Steady.bind (steady : Steady program) (rest : ∀ result, Steady (next result)) :
    Steady (program >>= next) := by
  intro rounds other
  change (program rounds >>= fun result => next result rounds) = (program other >>= fun result => next result other)
  rw [steady rounds other]
  cases program other with
  | error fault => rfl
  | ok result => exact rest result rounds other

theorem Steady.foldlM {body : σ → ι → Prog σ} (steady : ∀ state item, Steady (body state item)) (items : List ι)
    (state : σ) : Steady (items.foldlM body state) := by
  induction items generalizing state with
  | nil => exact .pure
  | cons item rest ih =>
    rw [List.foldlM_cons]
    exact (steady state item).bind ih

/-- Having returned once, it always does. -/
theorem Steady.ends (steady : Steady program) {rounds : Nat} {result : α} (returned : program rounds = .ok result)
    (holds : post result) : Ends program post :=
  ⟨result, holds, 0, fun other _ => (steady other rounds).trans returned⟩

end steady

section restricts

/-- Whatever the first program returns, the second one returns, too. -/
def Restricts (program other : Prog α) : Prop :=
  ∀ rounds result, program rounds = .ok result → other rounds = .ok result

variable {program other : Prog α} {next after : α → Prog β} {post : α → Prop}

theorem Restricts.refl (program : Prog α) : Restricts program program := fun _ _ => id

theorem Restricts.bind (first : Restricts program other) (rest : ∀ result, Restricts (next result) (after result)) :
    Restricts (program >>= next) (other >>= after) := by
  intro rounds final returned
  obtain ⟨middle, one, two⟩ := bind_result.mp returned
  exact bind_result.mpr ⟨middle, first rounds middle one, rest middle rounds final two⟩

theorem Restricts.loop {body inner : σ → Prog (Turn σ α)} (step : ∀ state, Restricts (body state) (inner state))
    (state : σ) : Restricts (loop body state) (loop inner state) := by
  intro rounds
  have turns (left : Nat) (state : σ) (result : α) (returned : iterate (body · rounds) left state = .ok result) :
      iterate (inner · rounds) left state = .ok result := by
    induction left generalizing state with
    | zero => cases returned
    | succ left ih =>
      unfold iterate at returned ⊢
      cases turned : body state rounds with
      | error fault =>
        rw [turned] at returned
        cases returned
      | ok turn =>
        rw [turned] at returned
        rw [step state rounds turn turned]
        cases turn with
        | again next => exact ih next returned
        | done last => exact returned
  exact turns rounds state

theorem Ends.restricts (ended : Ends program post) (restricts : Restricts program other) : Ends other post := by
  obtain ⟨result, holds, bound, returned⟩ := ended
  exact ⟨result, holds, bound, fun rounds large => restricts rounds result (returned rounds large)⟩

variable {window : Int → Prop} [DecidablePred window] {position : Int}

/-- An access to a position that a window may not hold. -/
def checked (window : Int → Prop) [DecidablePred window] (position : Int) (access : Prog α) : Prog α :=
  if window position then access else outOfRange

theorem checked_inside (inside : window position) : checked window position program = program := if_pos inside

theorem checked_restricts {wide : Int → Prop} [DecidablePred wide]
    (opens : ∀ position, window position → wide position) :
    Restricts (checked window position program) (checked wide position program) := by
  unfold checked
  split
  next inside =>
    rw [if_pos (opens position inside)]
    exact .refl program
  next =>
    intro _ _ returned
    cases returned

end restricts

section deep

/-- A recursion that is given its depth ends with one result if both the depth and the
rounds of its loops are large. -/
def Deep (family : Nat → Prog α) (post : α → Prop) : Prop :=
  ∃ result, post result ∧ ∃ bound, ∀ depth rounds, bound ≤ depth → bound ≤ rounds →
    family depth rounds = .ok result

variable {family : Nat → Prog α} {next : Nat → α → Prog β} {first : α → Prop} {post : β → Prop}

theorem Ends.deep {program : Prog α} (ended : Ends program first) : Deep (fun _ => program) first := by
  obtain ⟨result, holds, bound, returned⟩ := ended
  exact ⟨result, holds, bound, fun _ rounds _ large => returned rounds large⟩

theorem Deep.bind (deep : Deep family first)
    (rest : ∀ result, first result → Deep (fun depth => next depth result) post) :
    Deep (fun depth => family depth >>= next depth) post := by
  obtain ⟨result, holds, bound, returned⟩ := deep
  obtain ⟨final, finished, enough, continued⟩ := rest result holds
  refine ⟨final, finished, max bound enough, fun depth rounds high large => ?_⟩
  change (family depth rounds >>= fun result => next depth result rounds) = _
  rw [returned depth rounds ((le_max_left _ _).trans high) ((le_max_left _ _).trans large)]
  exact continued depth rounds ((le_max_right _ _).trans high) ((le_max_right _ _).trans large)

/-- One level of the recursion. -/
theorem Deep.descend {inner : Nat → Prog α} (same : ∀ depth, family (depth + 1) = inner depth)
    (deep : Deep inner first) : Deep family first := by
  obtain ⟨result, holds, bound, returned⟩ := deep
  refine ⟨result, holds, bound + 1, fun depth rounds high large => ?_⟩
  obtain ⟨depth, rfl⟩ := Nat.exists_eq_add_one.mpr (Nat.lt_of_lt_of_le (Nat.succ_pos bound) high)
  rw [same]
  exact returned depth rounds (by omega) (by omega)

theorem Deep.ends (deep : Deep family first) : Ends (fun rounds => family rounds rounds) first := by
  obtain ⟨result, holds, bound, returned⟩ := deep
  exact ⟨result, holds, bound, fun rounds large => returned rounds rounds large large⟩

end deep
end Yolov5Rknn.Program
