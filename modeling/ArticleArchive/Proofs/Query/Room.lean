import Mathlib.Tactic.MkIffOfInductiveProp
import ArticleArchive.Query.Basic

namespace ArticleArchive

namespace Comparison

/-- Whether a comparison of days bounds them from below. -/
def boundsStart : Comparison → Bool
  | lt | le => false
  | _ => true

def boundsStop : Comparison → Bool
  | gt | ge => false
  | _ => true

end Comparison

namespace Clause

def fieldName? : Clause → Option Text
  | .field f => some f.name
  | _ => none

def boundsStart : Clause → Bool
  | .dates _ _ => true
  | .range r => r.quantity == .date && r.op.boundsStart
  | _ => false

def boundsStop : Clause → Bool
  | .dates _ _ => true
  | .range r => r.quantity == .date && r.op.boundsStop
  | _ => false

end Clause

namespace DateFilter

variable {f : DateFilter}

/-- `r` is `f` with the ends that are asked for if `f` has neither of them, or else the complaint
that the days are given twice. -/
def Narrows (f : DateFilter) (start stop : Bool) (r : Except SyntaxError DateFilter) : Prop :=
  (∃ f', r = .ok f' ∧ f'.start.isSome.toNat = f.start.isSome.toNat + start.toNat ∧
    f'.stop.isSome.toNat = f.stop.isSome.toNat + stop.toNat) ∨
  (1 < f.start.isSome.toNat + start.toNat ∨ 1 < f.stop.isSome.toNat + stop.toNat) ∧
    r = .error (.duplicateField dateField)

theorem narrows_setStart (f : DateFilter) (day : Text) (included : Bool) :
    f.Narrows true false (f.setStart day included) := by
  unfold setStart
  cases h : f.start with
  | none => exact .inl ⟨_, rfl, by simp [h], rfl⟩
  | some _ => exact .inr ⟨.inl (by simp [h]), rfl⟩

theorem narrows_setStop (f : DateFilter) (day : Text) (included : Bool) :
    f.Narrows false true (f.setStop day included) := by
  unfold setStop
  cases h : f.stop with
  | none => exact .inl ⟨_, rfl, rfl, by simp [h]⟩
  | some _ => exact .inr ⟨.inr (by simp [h]), rfl⟩

theorem narrows_setBoth (f : DateFilter) (low high : Text) :
    f.Narrows true true (f.setBoth low high) := by
  unfold setBoth
  rcases f.narrows_setStart low true with ⟨g, hg, hstart, hstop⟩ | ⟨hfull, he⟩
  · rw [hg]
    rcases g.narrows_setStop high true with ⟨f', hf', hstart', hstop'⟩ | ⟨hfull, he⟩
    · exact .inl ⟨f', hf', hstart'.trans hstart, by rw [hstop', hstop]; rfl⟩
    · refine .inr ⟨.inr ?_, he⟩
      have : g.start.isSome.toNat ≤ 1 := Bool.toNat_le _
      simp only [Bool.toNat_false, Bool.toNat_true] at hfull hstop ⊢
      omega
  · refine .inr ⟨.inl ?_, by rw [he]; rfl⟩
    have : f.stop.isSome.toNat ≤ 1 := Bool.toNat_le _
    simp only [Bool.toNat_false, Bool.toNat_true] at hfull ⊢
    omega

theorem narrows_addComparison (f : DateFilter) (op : Comparison) (day : Text) :
    f.Narrows op.boundsStart op.boundsStop (f.addComparison op day) := by
  cases op with
  | gt | ge => exact f.narrows_setStart _ _
  | lt | le => exact f.narrows_setStop _ _
  | eq | other => exact f.narrows_setBoth _ _

end DateFilter

namespace Query

/-- The clauses name no field that the query has, nor one twice, and they bound the days of the
query on no side that is bounded already. -/
@[mk_iff]
structure HasRoom (q : Query) (cs : List Clause) : Prop where
  fields : (q.fields.map (·.name) ++ cs.filterMap Clause.fieldName?).Nodup
  start : q.dates.start.isSome.toNat + cs.countP Clause.boundsStart ≤ 1
  stop : q.dates.stop.isSome.toNat + cs.countP Clause.boundsStop ≤ 1

variable {q : Query}

theorem hasRoom_cons_iff {c : Clause} {cs : List Clause} :
    q.HasRoom (c :: cs) ↔
      (q.fields.map (·.name) ++ (c.fieldName?.toList ++ cs.filterMap Clause.fieldName?)).Nodup ∧
      q.dates.start.isSome.toNat + c.boundsStart.toNat + cs.countP Clause.boundsStart ≤ 1 ∧
      q.dates.stop.isSome.toNat + c.boundsStop.toNat + cs.countP Clause.boundsStop ≤ 1 := by
  have hcount (p : Clause → Bool) : (c :: cs).countP p = (p c).toNat + cs.countP p := by
    rw [List.countP_cons, Nat.add_comm]
    cases p c <;> rfl
  have hnames : (c :: cs).filterMap Clause.fieldName? =
      c.fieldName?.toList ++ cs.filterMap Clause.fieldName? := by
    rw [List.filterMap_cons]
    cases c.fieldName? <;> rfl
  rw [hasRoom_iff, hcount, hcount, hnames, Nat.add_assoc, Nat.add_assoc]

theorem hasRoom_nil_iff : q.HasRoom [] ↔ (q.fields.map (·.name)).Nodup := by
  simp [hasRoom_iff, Bool.toNat_le]

theorem hasRoom_of_narrows {c : Clause} {r : Except SyntaxError DateFilter}
    (hname : c.fieldName? = none) (h : q.dates.Narrows c.boundsStart c.boundsStop r) :
    (∃ f, r = .ok f ∧ ∀ cs, HasRoom { q with dates := f } cs ↔ q.HasRoom (c :: cs)) ∨
      (∀ cs, ¬ q.HasRoom (c :: cs)) ∧ r = .error (.duplicateField dateField) := by
  simp only [hasRoom_cons_iff, hname]
  rcases h with ⟨f, hf, hstart, hstop⟩ | ⟨hfull, he⟩
  · exact .inl ⟨f, hf, fun cs => by rw [hasRoom_iff, hstart, hstop]; rfl⟩
  · exact .inr ⟨fun cs => by omega, he⟩

/-- What becomes of a clause: the query takes it in, and then has room for what there was room for
behind the clause; or there was no room for the clause, and it is refused as given twice. -/
def Places (q : Query) (c : Clause) (r : Except SyntaxError Query) : Prop :=
  (∃ q', r = .ok q' ∧ (q'.fields.map (·.name)).Nodup ∧
      ∀ cs, q'.HasRoom cs ↔ q.HasRoom (c :: cs)) ∨
    (∀ cs, ¬ q.HasRoom (c :: cs)) ∧ ∃ name, r = .error (.duplicateField name)

theorem places_dates {c : Clause} {r : Except SyntaxError DateFilter}
    (hq : (q.fields.map (·.name)).Nodup) (hname : c.fieldName? = none)
    (h : q.dates.Narrows c.boundsStart c.boundsStop r) :
    q.Places c (r.map fun f => { q with dates := f }) := by
  rcases hasRoom_of_narrows hname h with ⟨f, rfl, hroom⟩ | ⟨hno, rfl⟩
  · exact .inl ⟨_, rfl, hq, hroom⟩
  · exact .inr ⟨hno, _, rfl⟩

theorem places_field (hq : (q.fields.map (·.name)).Nodup) (f : FieldClause) :
    q.Places (.field f) (q.addClause (.field f)) := by
  simp only [addClause]
  split
  · rename_i hany
    refine .inr ⟨fun cs hroom => ?_, f.name, rfl⟩
    obtain ⟨g, hg, hname⟩ : ∃ g ∈ q.fields, g.name = f.name := by simpa using hany
    have hapart := (List.nodup_append.mp (hasRoom_cons_iff.mp hroom).1).2.2
    exact hapart g.name (List.mem_map_of_mem hg) f.name List.mem_cons_self hname
  · rename_i hany
    have hnew : f.name ∉ q.fields.map (·.name) := by simpa using hany
    refine .inl ⟨_, rfl, ?_, fun cs => ?_⟩
    · rw [List.map_append, List.map_singleton]
      refine List.nodup_append.mpr ⟨hq, by simp, fun n hn m hm => ?_⟩
      rintro rfl
      exact hnew (List.mem_singleton.mp hm ▸ hn)
    · rw [hasRoom_cons_iff, hasRoom_iff, List.map_append, List.append_assoc]
      rfl

theorem places_addClause (hq : (q.fields.map (·.name)).Nodup) (c : Clause) :
    q.Places c (q.addClause c) := by
  cases c with
  | field f => exact places_field hq f
  | dates low high => exact places_dates hq rfl (q.dates.narrows_setBoth low high)
  | range r =>
    obtain ⟨quantity, op, value⟩ := r
    cases quantity with
    | date => exact places_dates hq rfl (q.dates.narrows_addComparison op value)
    | views => exact .inl ⟨_, rfl, hq, fun cs => by rw [hasRoom_cons_iff, hasRoom_iff]; rfl⟩
  | term | or => exact .inl ⟨_, rfl, hq, fun cs => by rw [hasRoom_cons_iff, hasRoom_iff]; rfl⟩

/-- The clauses of a chain make a query if and only if there is room for them. -/
theorem foldlM_addClause_cases (hq : (q.fields.map (·.name)).Nodup) (cs : List Clause) :
    (q.HasRoom cs ∧ ∃ q', cs.foldlM addClause q = .ok q') ∨
      ¬ q.HasRoom cs ∧ ∃ name, cs.foldlM addClause q = .error (.duplicateField name) := by
  induction cs generalizing q with
  | nil => exact .inl ⟨hasRoom_nil_iff.mpr hq, q, rfl⟩
  | cons c cs ih =>
    rw [List.foldlM_cons]
    rcases places_addClause hq c with ⟨q₁, h₁, hq₁, hroom⟩ | ⟨hno, name, he⟩
    · rw [← hroom, h₁]
      exact ih hq₁
    · exact .inr ⟨hno cs, name, by rw [he]; rfl⟩

end Query

end ArticleArchive
