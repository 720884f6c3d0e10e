import Memmy.Bundle.Export

/-! # What an export shows of two databases

Two databases that agree outside the columns whose content comes from the texts of the turns
(`DifferOnlyIn`). Their exports without raw texts are compared cell by cell.

* `export_table`: which rows of a table are exported, and how.
* `finalRow_eq_iff`: two rows are exported alike when their cells that are shown agree.
* `export_eq_iff`: the exports are equal exactly when the databases also agree in the exported cells
  outside `withheld`. -/

namespace Memmy.Bundle.RawText

open Bundle.Tables Bundle.Export List

/-- The columns that decide which rows are exported, and where the cursors stand: ids, references,
states and sequence numbers, none of which is made of a text. -/
def bookkeeping : BundleTable → List String
  | .rawTurns => ["redacted_at"]
  | .l3WorldModelEvidenceBatches => ["id", "terminal_outcome"]
  | .l3WorldModelBatchTargets => ["batch_id"]
  | .evolutionJobs => ["job_type", "status"]
  | .l3WorldModelInputTraces => ["session_id", "trace_seq"]
  | _ => []

/-- The columns that are blanked or reset. -/
def withheld : BundleTable → List String
  | .rawTurns => blankedColumns
  | .l3WorldModelProjectEnvironmentState => ["status", "current_scan_id", "last_error"]
  | _ => []

/-- **Columns with the texts of the turns** and with what is derived of them: no ids, states or
sequence numbers, and nothing of the cursors of the sessions. -/
structure FromTexts (derived : BundleTable → String → Prop) : Prop where
  content : ∀ table column, derived table column → column ∉ bookkeeping table ∧ column ≠ "__table"
  cursors : ∀ column, ¬ derived .l3WorldModelSessionCursors column

/-- The databases have the same rows up to the columns `derived`. -/
def DifferOnlyIn (derived : BundleTable → String → Prop) (d e : TableRows) : Prop :=
  ∀ table, List.Forall₂ (fun r s => ∀ column, ¬ derived table column → r column = s column) (d table) (e table)

def isExported (env : Env) (db : TableRows) : BundleTable → Row → Bool
  | .l3WorldModelEvidenceBatches, row =>
    env.stringOf (row "id") ∈ terminalBatchIds env (db .l3WorldModelEvidenceBatches)
  | .l3WorldModelBatchTargets, row =>
    env.stringOf (row "batch_id") ∈ terminalBatchIds env (db .l3WorldModelEvidenceBatches)
  | .evolutionJobs, row => keepsJob row
  | _, _ => true

/-- What is shown of a cell that is not withheld. -/
def shownCell (env : Env) (table : BundleTable) (row : Row) (column : String) : Cell :=
  if table = .memoryChangeLog ∧ (column = "before_json" ∨ column = "after_json") then
    compactHistoryChangeJson env (row column)
  else row column

/-- **The databases agree in all that is exported of them:** in the cells outside the blanked and
reset columns of the rows that are exported, the change log taken after its compaction. -/
def AgreeInExported (env : Env) (derived : BundleTable → String → Prop) (d e : TableRows) : Prop :=
  ∀ table, List.Forall₂ (fun r s => isExported env d table r = true →
    ∀ column, derived table column → column ∉ withheld table →
      shownCell env table r column = shownCell env table s column) (d table) (e table)

/-! ### Two lists of rows -/

theorem filter_map_eq_iff {α β : Type*} {p q : α → Bool} {f g : α → β} {l m : List α}
    (h : List.Forall₂ (fun a b => p a = q b) l m) :
    (l.filter p).map f = (m.filter q).map g ↔ List.Forall₂ (fun a b => p a = true → f a = g b) l m := by
  induction h with
  | nil => simp
  | @cons a b l m hab _ ih =>
    rw [List.forall₂_cons, ← ih]
    by_cases ha : p a = true
    · rw [filter_cons_of_pos ha, filter_cons_of_pos (hab ▸ ha), map_cons, map_cons, List.cons.injEq]
      exact and_congr_left fun _ => ⟨fun h _ => h, fun h => h ha⟩
    · rw [filter_cons_of_neg ha, filter_cons_of_neg (hab ▸ ha)]
      exact ⟨fun h => ⟨fun hp => absurd hp ha, h⟩, And.right⟩

/-! ### One row -/

/-- The row as it stands in the export. -/
def finalRow (env : Env) (table : BundleTable) (row : Row) : Row :=
  if table = .l3WorldModelProjectEnvironmentState then
    resetEnvironment (exportedRow env false table row)
  else exportedRow env false table row

variable {table : BundleTable} {column : String}

theorem exportedRow_shown (env : Env) (row : Row) (hwithheld : table = .rawTurns → column ∉ blankedColumns)
    (hredacted : table = .rawTurns → column ≠ "redacted_at") (htable : column ≠ "__table") :
    exportedRow env false table row column = shownCell env table row column := by
  unfold exportedRow serializeBundleRow
  rw [Row.set_ne _ _ htable, if_neg Bool.false_ne_true]
  by_cases hturns : table = .rawTurns
  · subst hturns
    have hcolumn := hwithheld rfl
    simp only [blankedColumns, mem_cons, not_mem_nil, or_false, not_or] at hcolumn
    obtain ⟨h₁, h₂, h₃, h₄, h₅⟩ := hcolumn
    have hshown : shownCell env .rawTurns row column = row column := if_neg (by simp)
    rw [redactBundleRow, if_neg (by simp), Row.set_ne _ _ (hredacted rfl), Row.set_ne _ _ h₅,
      Row.set_ne _ _ h₄, Row.set_ne _ _ h₃, Row.set_ne _ _ h₂, Row.set_ne _ _ h₁, if_neg (by simp),
      hshown]
  · rw [redactBundleRow, if_pos hturns]
    by_cases hlog : table = .memoryChangeLog
    · subst hlog
      rw [if_pos rfl, compactHistoryChangeRow, shownCell]
      by_cases hafter : column = "after_json"
      · subst hafter
        rw [Row.set_same, if_pos ⟨rfl, Or.inr rfl⟩]
      · rw [Row.set_ne _ _ hafter]
        by_cases hbefore : column = "before_json"
        · subst hbefore
          rw [Row.set_same, if_pos ⟨rfl, Or.inl rfl⟩]
        · rw [Row.set_ne _ _ hbefore, if_neg fun h => h.2.elim hbefore hafter]
    · rw [if_neg hlog, shownCell, if_neg fun h => hlog h.1]

theorem finalRow_shown (env : Env) (row : Row) (hwithheld : column ∉ withheld table)
    (hredacted : table = .rawTurns → column ≠ "redacted_at") (htable : column ≠ "__table") :
    finalRow env table row column = shownCell env table row column := by
  have hexported : exportedRow env false table row column = shownCell env table row column :=
    exportedRow_shown env row (fun h => by subst h; exact hwithheld) hredacted htable
  unfold finalRow
  by_cases hstate : table = .l3WorldModelProjectEnvironmentState
  · subst hstate
    simp only [withheld, mem_cons, not_mem_nil, or_false, not_or] at hwithheld
    obtain ⟨h₁, h₂, h₃⟩ := hwithheld
    rw [if_pos rfl, resetEnvironment, Row.set_ne _ _ h₃, Row.set_ne _ _ h₂, Row.set_ne _ _ h₁, hexported]
  · rw [if_neg hstate, hexported]

/-- A blanked or reset cell says nothing of the row. -/
theorem finalRow_withheld (env : Env) (r s : Row)
    (h : column ∈ withheld table) : finalRow env table r column = finalRow env table s column := by
  cases table with
  | rawTurns =>
    simp only [withheld, blankedColumns, mem_cons, not_mem_nil, or_false] at h
    rcases h with rfl | rfl | rfl | rfl | rfl <;> rfl
  | l3WorldModelProjectEnvironmentState =>
    simp only [withheld, mem_cons, not_mem_nil, or_false] at h
    rcases h with rfl | rfl | rfl <;> rfl
  | _ => exact absurd h (by simp [withheld])

theorem finalRow_table (env : Env) (table : BundleTable) (r s : Row) :
    finalRow env table r "__table" = finalRow env table s "__table" := by
  unfold finalRow
  by_cases hstate : table = .l3WorldModelProjectEnvironmentState
  · subst hstate
    rfl
  · rw [if_neg hstate, if_neg hstate]
    rfl

theorem finalRow_redactedAt (env : Env) {r s : Row} (h : r "redacted_at" = s "redacted_at") :
    finalRow env .rawTurns r "redacted_at" = finalRow env .rawTurns s "redacted_at" := by
  simp [finalRow, exportedRow, serializeBundleRow, redactBundleRow, h]

variable {derived : BundleTable → String → Prop} {d e : TableRows}

/-- **Two rows are exported alike** when their cells that are shown agree. -/
theorem finalRow_eq_iff (env : Env) (hderived : FromTexts derived) {r s : Row}
    (h : ∀ column, ¬ derived table column → r column = s column) :
    finalRow env table r = finalRow env table s ↔
      ∀ column, derived table column → column ∉ withheld table →
        shownCell env table r column = shownCell env table s column := by
  constructor
  · intro heq column hcolumn hshown
    obtain ⟨hbook, htable⟩ := hderived.content table column hcolumn
    have hredacted : table = .rawTurns → column ≠ "redacted_at" := by
      rintro rfl rfl
      exact hbook (by simp [bookkeeping])
    rw [← finalRow_shown env r hshown hredacted htable, heq, finalRow_shown env s hshown hredacted htable]
  · intro hcells
    funext column
    by_cases hshown : column ∈ withheld table
    · exact finalRow_withheld env r s hshown
    by_cases htable : column = "__table"
    · subst htable
      exact finalRow_table env table r s
    by_cases hredacted : table = .rawTurns ∧ column = "redacted_at"
    · obtain ⟨rfl, rfl⟩ := hredacted
      exact finalRow_redactedAt env (h _ fun hd =>
        (hderived.content _ _ hd).1 (by simp [bookkeeping]))
    have hnot : table = .rawTurns → column ≠ "redacted_at" := fun ht hc => hredacted ⟨ht, hc⟩
    rw [finalRow_shown env r hshown hnot htable, finalRow_shown env s hshown hnot htable]
    by_cases hcolumn : derived table column
    · exact hcells column hcolumn hshown
    · unfold shownCell
      rw [h column hcolumn]

/-! ### One table -/

theorem exported_cell (env : Env) (row : Row)
    (h : column ∈ bookkeeping table) (hne : column ≠ "redacted_at") :
    exportedRow env false table row column = row column := by
  cases table with
  | rawTurns =>
    simp only [bookkeeping, mem_singleton] at h
    exact absurd h hne
  | l3WorldModelEvidenceBatches | l3WorldModelBatchTargets | evolutionJobs
  | l3WorldModelInputTraces =>
    simp only [bookkeeping, mem_cons, not_mem_nil, or_false] at h
    rcases h with rfl | rfl <;> rfl
  | _ => exact absurd h (by simp [bookkeeping])

theorem terminalBatchIds_map (env : Env) (batches : List Row) :
    terminalBatchIds env (batches.map (exportedRow env false .l3WorldModelEvidenceBatches)) =
      terminalBatchIds env batches := by
  unfold terminalBatchIds
  rw [filter_map, map_map]
  rfl

/-- **Which rows are exported, and how:** all but the unfinished work, in their order. -/
theorem export_table (env : Env) (db : TableRows) (h : table ≠ .l3WorldModelSessionCursors) :
    exportBundleTables env false db table =
      ((db table).filter (isExported env db table)).map (finalRow env table) := by
  have hall : ∀ l : List Row, l.filter (fun _ => true) = l := filter_true
  unfold exportBundleTables
  unfold normalizeRedactedL3WorldModelBundle
  simp only [terminalBatchIds_map]
  cases table with
  | l3WorldModelSessionCursors => exact absurd rfl h
  | l3WorldModelEvidenceBatches | l3WorldModelBatchTargets | evolutionJobs =>
    simp only [filter_map]
    rfl
  | l3WorldModelProjectEnvironmentState =>
    simp only [map_map]
    exact (congrArg (List.map _) (hall _)).symm
  | _ => exact (congrArg (List.map _) (hall _)).symm

theorem isExported_congr (env : Env) (hderived : FromTexts derived) (hd : DifferOnlyIn derived d e)
    (table : BundleTable) :
    List.Forall₂ (fun r s => isExported env d table r = isExported env e table s) (d table) (e table) := by
  have hbook : ∀ {table : BundleTable} {column : String} {r s : Row}, column ∈ bookkeeping table →
      (∀ column, ¬ derived table column → r column = s column) → r column = s column :=
    fun hc h => h _ fun hcolumn => (hderived.content _ _ hcolumn).1 hc
  have hids : terminalBatchIds env (d .l3WorldModelEvidenceBatches) =
      terminalBatchIds env (e .l3WorldModelEvidenceBatches) := by
    refine (filter_map_eq_iff ((hd .l3WorldModelEvidenceBatches).imp fun r s h => ?_)).mpr
      ((hd .l3WorldModelEvidenceBatches).imp fun r s h _ => ?_)
    · unfold hasTerminalOutcome
      rw [hbook (by simp [bookkeeping]) h]
    · rw [hbook (by simp [bookkeeping]) h]
  refine (hd table).imp fun r s h => ?_
  cases table with
  | l3WorldModelEvidenceBatches | l3WorldModelBatchTargets =>
    simp only [isExported]
    rw [hids, hbook (by simp [bookkeeping]) h]
  | evolutionJobs =>
    simp only [isExported]
    unfold keepsJob
    rw [h "job_type" fun hd => (hderived.content _ _ hd).1 (by simp [bookkeeping]),
      h "status" fun hd => (hderived.content _ _ hd).1 (by simp [bookkeeping])]
  | _ => rfl

/-- The cursors are moved by the sequence numbers only. -/
theorem cursors_eq (env : Env) (hderived : FromTexts derived) (hd : DifferOnlyIn derived d e) :
    exportBundleTables env false d .l3WorldModelSessionCursors =
      exportBundleTables env false e .l3WorldModelSessionCursors := by
  have hcursors : d .l3WorldModelSessionCursors = e .l3WorldModelSessionCursors := by
    refine List.forall₂_eq_eq_eq ▸ (hd .l3WorldModelSessionCursors).imp fun r s h => ?_
    exact funext fun column => h column (hderived.cursors column)
  have htraces : ∀ {l m : List Row}, List.Forall₂ (fun r s : Row =>
      ∀ column, ¬ derived .l3WorldModelInputTraces column → r column = s column) l m →
      ∀ cursors, (l.map (exportedRow env false .l3WorldModelInputTraces)).foldl
        (advanceCursor env) cursors =
        (m.map (exportedRow env false .l3WorldModelInputTraces)).foldl (advanceCursor env) cursors := by
    intro l m h
    induction h with
    | nil => exact fun _ => rfl
    | @cons r s l m hrs _ ih =>
      intro cursors
      have hstep : advanceCursor env cursors (exportedRow env false .l3WorldModelInputTraces r) =
          advanceCursor env cursors (exportedRow env false .l3WorldModelInputTraces s) := by
        have hcell : ∀ column ∈ bookkeeping .l3WorldModelInputTraces,
            exportedRow env false .l3WorldModelInputTraces r column =
              exportedRow env false .l3WorldModelInputTraces s column := by
          intro column hcolumn
          have hne : column ≠ "redacted_at" := by
            rintro rfl
            simp [bookkeeping] at hcolumn
          rw [exported_cell env r hcolumn hne, exported_cell env s hcolumn hne]
          exact hrs column fun h => (hderived.content _ _ h).1 hcolumn
        unfold advanceCursor
        rw [hcell "session_id" (by simp [bookkeeping]), hcell "trace_seq" (by simp [bookkeeping])]
      rw [map_cons, map_cons, foldl_cons, foldl_cons, hstep, ih]
  unfold exportBundleTables
  simp only [Bool.false_eq_true, if_false]
  unfold normalizeRedactedL3WorldModelBundle advancedCursors
  simp only [hcursors, htraces (hd .l3WorldModelInputTraces)]

/-- **What an export shows of the texts:** the exports of two databases that differ only in what comes
from the texts of the turns are equal exactly when these databases agree in the exported cells that are
neither blanked nor reset. -/
theorem export_eq_iff (env : Env) (hderived : FromTexts derived) (hd : DifferOnlyIn derived d e) :
    exportBundleTables env false d = exportBundleTables env false e ↔
      AgreeInExported env derived d e := by
  have htable : ∀ table, table ≠ .l3WorldModelSessionCursors →
      (exportBundleTables env false d table = exportBundleTables env false e table ↔
        List.Forall₂ (fun r s => isExported env d table r = true →
          ∀ column, derived table column → column ∉ withheld table →
            shownCell env table r column = shownCell env table s column) (d table) (e table)) := by
    intro table hne
    rw [export_table env d hne, export_table env e hne,
      filter_map_eq_iff (isExported_congr env hderived hd table)]
    constructor
    · refine fun h => List.Forall₂.mp (fun r s hrs heq => ?_) (hd table) h
      exact fun hexported => (finalRow_eq_iff env hderived hrs).mp (heq hexported)
    · refine fun h => List.Forall₂.mp (fun r s hrs hcells => ?_) (hd table) h
      exact fun hexported => (finalRow_eq_iff env hderived hrs).mpr (hcells hexported)
  constructor
  · intro h table
    by_cases hne : table = .l3WorldModelSessionCursors
    · subst hne
      exact (hd _).imp fun r s _ _ column hcolumn => absurd hcolumn (hderived.cursors column)
    · exact (htable table hne).mp (congrFun h table)
  · intro h
    funext table
    by_cases hne : table = .l3WorldModelSessionCursors
    · subst hne
      exact cursors_eq env hderived hd
    · exact (htable table hne).mpr (h table)

end Memmy.Bundle.RawText
