import Mathlib.Algebra.Order.Ring.Rat
import Mathlib.Data.List.Forall2
import Simian.Lib.Failing
import Simian.Lib.FirstMax
import Simian.Lib.Python

/-! # Selection of the best model

`select_best_model` of `ml_engine/model_manager.py` over the learning libraries it calls
(`Libraries`), whose training and scoring may differ from attempt to attempt. A model with accuracy
zero never becomes the best one, so the best of several such models is not found
(`selects_first_best`). -/

namespace Simian.ModelManager
open Python

/-- An accuracy is a fraction of the test rows. -/
def Accuracy : Type := {q : ℚ // 0 ≤ q ∧ q ≤ 1}

instance : LinearOrder Accuracy := inferInstanceAs (LinearOrder {q : ℚ // 0 ≤ q ∧ q ≤ 1})

def Accuracy.zero : Accuracy := ⟨0, le_refl 0, zero_le_one⟩

def Accuracy.one : Accuracy := ⟨1, zero_le_one, le_refl 1⟩

/-- pandas, scikit-learn and the three trainers. What is done in a round of the loop also depends on
the number of the round. -/
structure Libraries (Frame Series Model Preds : Type) where
  drop : Frame → List String → Except Error Frame
  column : Frame → String → Except Error Series
  train_test_split : Frame → Series → (test_size : ℚ) → (random_state : Nat) →
    Except Error (Frame × Frame × Series × Series)
  train_xgboost : Nat → Frame → Series → Except Error Model
  train_lgbm : Nat → Frame → Series → Except Error Model
  train_gb : Nat → Frame → Series → Except Error Model
  predict : Nat → Model → Frame → Except Error Preds
  accuracy_score : Nat → Series → Preds → Except Error Accuracy

variable {Frame Series Model Preds : Type}

/-- `pd` is not imported in `train_utils.py`. -/
def load_sample_data : Except Error Frame := .error (.nameError "pd")

def train_model (L : Libraries Frame Series Model Preds) (round : Nat) (model_name : String)
    (X : Frame) (y : Series) : Except Error Model :=
  if model_name = "xgboost" then L.train_xgboost round X y
  else if model_name = "lgbm" then L.train_lgbm round X y
  else if model_name = "gb" then L.train_gb round X y
  else .error (.valueError ("Unsupported model: " ++ model_name))

def models_to_try : List String := ["xgboost", "lgbm", "gb"]

/-- A trained model with its name and its accuracy. -/
structure Tried (Model : Type) where
  model_name : String
  model : Model
  score : Accuracy

/-- The variables of the loop. -/
structure Selection (Model : Type) where
  best_score : Accuracy
  best_model : Option (String × Model)
  model_scores : List (String × Accuracy)

def Selection.start : Selection Model := ⟨.zero, none, []⟩

/-- The end of a round. -/
def Selection.score (s : Selection Model) (t : Tried Model) : Selection Model :=
  let model_scores := Dict.set s.model_scores t.model_name t.score
  if s.best_score < t.score then ⟨t.score, some (t.model_name, t.model), model_scores⟩
  else { s with model_scores }

/-- A round up to its score. -/
def tryModel (L : Libraries Frame Series Model Preds) (X_train X_test : Frame)
    (y_train y_test : Series) (round : Nat) (model_name : String) :
    Except Error (Tried Model) := do
  let model ← train_model L round model_name X_train y_train
  let preds ← L.predict round model X_test
  let score ← L.accuracy_score round y_test preds
  return ⟨model_name, model, score⟩

/-- `for model_name in models_to_try` -/
def loop (round : Nat → String → Except Error (Tried Model)) :
    Nat → Selection Model → List String → Except Error (Selection Model)
  | _, s, [] => .ok s
  | i, s, model_name :: names => do
    let t ← round i model_name
    loop round (i + 1) (s.score t) names

/-- What is printed. -/
inductive Line
  | scores (model_scores : List (String × Accuracy))
  | best (model_name : String) (best_score : Accuracy)

/-- The end of the function; `best_model[0]` raises if there is no best model. -/
def report (s : Selection Model) : List Line × Except Error (String × Model) :=
  match s.best_model with
  | some best_model =>
    ([.scores s.model_scores, .best best_model.1 s.best_score], .ok best_model)
  | none => ([.scores s.model_scores], .error .typeError)

/-- The test split of `data`, with the rounds that it gives. -/
def rounds (L : Libraries Frame Series Model Preds) (data : Option Frame)
    (target_column : String) : Except Error (Nat → String → Except Error (Tried Model)) := do
  let data ← match data with
    | some data => .ok data
    | none => load_sample_data
  let X ← L.drop data [target_column]
  let y ← L.column data target_column
  let (X_train, X_test, y_train, y_test) ← L.train_test_split X y (1 / 4) 42
  return tryModel L X_train X_test y_train y_test

def select_best_model (L : Libraries Frame Series Model Preds) (models_to_try : List String)
    (data : Option Frame) (target_column : String) : List Line × Except Error (String × Model) :=
  match (rounds L data target_column).bind fun round => loop round 0 .start models_to_try with
  | .ok s => report s
  | .error e => ([], .error e)

/-! ## The selected model -/

/-- The rounds of the loop without the selection. -/
def tryAll (round : Nat → String → Except Error (Tried Model)) :
    Nat → List String → Except Error (List (Tried Model))
  | _, [] => .ok []
  | i, name :: names => do
    let t ← round i name
    let ts ← tryAll round (i + 1) names
    return t :: ts

/-- All models trained and scored, in the order of `models_to_try`. -/
def trials (L : Libraries Frame Series Model Preds) (models_to_try : List String)
    (data : Option Frame) (target_column : String) : Except Error (List (Tried Model)) :=
  (rounds L data target_column).bind fun round => tryAll round 0 models_to_try

variable {round : Nat → String → Except Error (Tried Model)} {i : Nat} {names : List String}
  {s : Selection Model} {t : Tried Model} {tried : List (Tried Model)} {best : Option (Tried Model)}

theorem tryAll_cons {name : String} (h : tryAll round i (name :: names) = .ok tried) :
    ∃ t ts, round i name = .ok t ∧ tryAll round (i + 1) names = .ok ts ∧ tried = t :: ts := by
  rw [tryAll] at h
  obtain ⟨t, ht, h⟩ := Except.bind_eq_ok.1 h
  obtain ⟨ts, hts, h⟩ := Except.bind_eq_ok.1 h
  cases h
  exact ⟨t, ts, ht, hts, rfl⟩

theorem loop_eq (h : tryAll round i names = .ok tried) :
    loop round i s names = .ok (tried.foldl Selection.score s) := by
  induction names generalizing i s tried with
  | nil =>
    cases h
    rfl
  | cons name names ih =>
    obtain ⟨t, ts, ht, hts, rfl⟩ := tryAll_cons h
    rw [loop, ht]
    exact ih hts

/-- The variables of the loop hold the candidate that a scan keeps. -/
structure Holds (s : Selection Model) (best : Option (Tried Model)) : Prop where
  best_score : s.best_score = FirstMax.toBeat Tried.score .zero best
  best_model : s.best_model = best.map fun t => (t.model_name, t.model)

theorem Holds.score (h : Holds s best) :
    Holds (s.score t) (FirstMax.better Tried.score .zero best t) := by
  rw [Selection.score, FirstMax.better, h.best_score]
  split
  · exact ⟨rfl, rfl⟩
  · exact ⟨rfl, h.best_model⟩

theorem holds_scan :
    Holds (tried.foldl Selection.score .start) (FirstMax.scan Tried.score .zero tried) := by
  induction tried using List.reverseRecOn with
  | nil => exact ⟨rfl, rfl⟩
  | append_singleton tried t ih =>
    rw [List.foldl_append, FirstMax.scan_snoc]
    exact ih.score

variable {L : Libraries Frame Series Model Preds} {data : Option Frame} {target_column : String}

theorem select_best_model_eq (h : trials L names data target_column = .ok tried) :
    (select_best_model L names data target_column).2 =
      match FirstMax.scan Tried.score .zero tried with
      | some t => .ok (t.model_name, t.model)
      | none => .error .typeError := by
  obtain ⟨round, hrounds, htried⟩ := Except.bind_eq_ok.1 h
  rw [select_best_model, hrounds, Except.bind, loop_eq htried]
  simp only [report, holds_scan.best_model]
  cases FirstMax.scan Tried.score .zero tried <;> rfl

/-- What is returned is the first of the tried models with the greatest accuracy. -/
def SelectsFirstBest (L : Libraries Frame Series Model Preds) (models_to_try : List String)
    (data : Option Frame) (target_column : String) (tried : List (Tried Model)) : Prop :=
  ∃ t : Tried Model,
    (select_best_model L models_to_try data target_column).2 = .ok (t.model_name, t.model) ∧
      FirstMax Tried.score tried t

/-- Once all models are trained and scored, the first best one is returned exactly if some
accuracy is not zero. -/
theorem selects_first_best (h : trials L names data target_column = .ok tried) :
    SelectsFirstBest L names data target_column tried ↔ ∃ t ∈ tried, Accuracy.zero < t.score := by
  have heq := select_best_model_eq h
  have hkept : FirstMax.Kept Tried.score Accuracy.zero tried _ := FirstMax.kept_scan
  rw [← FirstMax.isSome_scan, SelectsFirstBest, heq]
  cases hs : FirstMax.scan Tried.score Accuracy.zero tried with
  | none => simp
  | some t =>
    rw [hs] at hkept
    exact iff_of_true ⟨t, rfl, hkept.2⟩ rfl

/-- Libraries whose models all have the accuracy `q`. -/
def uniform (q : Accuracy) : Libraries Unit Unit Unit Unit where
  drop _ _ := .ok ()
  column _ _ := .ok ()
  train_test_split _ _ _ _ := .ok ((), (), (), ())
  train_xgboost _ _ _ := .ok ()
  train_lgbm _ _ _ := .ok ()
  train_gb _ _ _ := .ok ()
  predict _ _ _ := .ok ()
  accuracy_score _ _ _ := .ok q

theorem selects_first_best_one :
    trials (uniform .one) models_to_try (some ()) "target" =
      .ok (models_to_try.map fun name => ⟨name, (), .one⟩) ∧
      SelectsFirstBest (uniform .one) models_to_try (some ()) "target"
        (models_to_try.map fun name => ⟨name, (), .one⟩) := by
  have h : trials (uniform .one) models_to_try (some ()) "target" =
      .ok (models_to_try.map fun name => ⟨name, (), .one⟩) := rfl
  have hpos : Accuracy.zero < Accuracy.one := zero_lt_one (α := ℚ)
  exact ⟨h, (selects_first_best h).2 ⟨⟨"xgboost", (), .one⟩, List.mem_cons_self, hpos⟩⟩

/-- With three models of accuracy zero the function fails after they have been scored. -/
theorem fails_on_zero :
    trials (uniform .zero) models_to_try (some ()) "target" =
      .ok (models_to_try.map fun name => ⟨name, (), .zero⟩) ∧
      (select_best_model (uniform .zero) models_to_try (some ()) "target").2 =
        .error .typeError ∧
      ¬ SelectsFirstBest (uniform .zero) models_to_try (some ()) "target"
        (models_to_try.map fun name => ⟨name, (), .zero⟩) := by
  have h : (select_best_model (uniform .zero) models_to_try (some ()) "target").2 =
      .error .typeError := rfl
  refine ⟨rfl, h, ?_⟩
  intro hsel
  obtain ⟨t, ht, -⟩ := hsel
  cases h.symm.trans ht

end Simian.ModelManager
