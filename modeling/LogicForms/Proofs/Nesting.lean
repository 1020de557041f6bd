import LogicForms.CallTree.TracedBody
import Mathlib.Algebra.Order.BigOperators.Group.List
import Mathlib.Algebra.Ring.Int.Defs

/-!
# Traces are well nested

A traced call restores the running indentation however its body ends, so calls that are made one
after the other find the same indentation, also behind calls that have failed
(`TracedBody.traces_run`). What a computation writes is therefore decided by the tree of its calls,
and every tree is that of a computation (`CallTree.exists_tree_eq`).

To say which line belongs to which call, lines are marked with addresses. An address leads from the
outermost call to a call below it. `CallTree.HasCall` gives the calls of a tree with their
addresses, and `Surrounds` says that the lines of one call stand around those of all calls below it.
The main result `CallTree.trace_wellNested` puts these together.
-/

set_option autoImplicit false

namespace LogicForms

variable {ε α β : Type}

/-! ### The lines of a tree -/

/-- A call whose value is shown has one line on exit, or none if it fails. -/
theorem CallRecord.map_text_leaveLines {record : CallRecord} (hshow : record.showValue = true)
    (n : Nat) :
    (record.leaveLines n).map TraceLine.text =
      record.value?.toList.map fun value =>
        String.ofList (List.replicate n ' ') ++ "<-- " ++ record.name ++ " == " ++ value ++
          "\n\n" := by
  cases hvalue : record.value? with
  | none => simp [leaveLines, hvalue]
  | some value => simp [leaveLines, hvalue, hshow, TraceLine.text, TraceLine.spaces]

namespace CallTree

mutual
/-- The running indentation is the same after a call as before it. -/
theorem write_snd (tree : CallTree) (indent : Int) : (tree.write indent).2 = indent := by
  cases tree with
  | node record inner =>
    have hinner := writeAll_snd inner (indent + record.indentStep)
    -- the step that the call adds is taken away again
    simp only [write, hinner]
    omega
/-- The running indentation is the same after calls as before them. -/
theorem writeAll_snd (trees : List CallTree) (indent : Int) :
    (writeAll trees indent).2 = indent := by
  cases trees with
  | nil => rfl
  | cons tree trees =>
    have htree := write_snd tree indent
    have htrees := writeAll_snd trees indent
    simp only [writeAll, htree, htrees]
end

@[simp] theorem writeAll_nil (indent : Int) : writeAll [] indent = ([], indent) := rfl

/-- The lines of the calls inside a call stand between its own. -/
theorem write_node_fst (record : CallRecord) (inner : List CallTree) (indent : Int) :
    ((node record inner).write indent).1 =
      record.enterLine indent ::
        ((writeAll inner (indent + record.indentStep)).1 ++ record.leaveLines indent) := rfl

theorem writeAll_cons_fst (tree : CallTree) (trees : List CallTree) (indent : Int) :
    (writeAll (tree :: trees) indent).1 = (tree.write indent).1 ++ (writeAll trees indent).1 := by
  simp only [writeAll, write_snd]

end CallTree

/-! ### Running traced calls -/

namespace TracedCall

/-- What a call does, if its body does this with the indentation raised. -/
theorem runFrom_around (call : TracedCall α) {body : Tracing ε α} {state ended : TraceState}
    {outcome : Except ε α}
    (hbody : body.runFrom ⟨state.indent + call.indentStep,
      state.lines ++ [.enter state.indent call.name call.args]⟩ = (outcome, ended)) :
    (call.around body).runFrom state =
      (outcome, ⟨ended.indent - call.indentStep,
        ended.lines ++ (call.record outcome).leaveLines state.indent⟩) := by
  simp only [around, Tracing.runFrom_bind, Tracing.runFrom_get, Tracing.runFrom_write,
    Tracing.runFrom_shift, Tracing.runFrom_finally_shift, hbody, Int.sub_eq_add_neg]
  cases outcome with
  | error failure => rw [leaveLines_record_error, List.append_nil]
  | ok value =>
    rw [leaveLines_record_ok]
    cases call.showValue with
    | false => simp
    | true => rfl

end TracedCall

namespace Tracing

/-- The outcome is this one, whatever the state before. The lines of the trees are added to the
state, and its indentation stays the same. -/
def Traces (x : Tracing ε α) (outcome : Except ε α) (trees : List CallTree) : Prop :=
  ∀ state, x.runFrom state =
    (outcome, ⟨state.indent, state.lines ++ (CallTree.writeAll trees state.indent).1⟩)

namespace Traces

theorem pure (value : α) : Traces (pure value : Tracing ε α) (.ok value) [] := by
  intro state
  rw [runFrom_pure, CallTree.writeAll_nil, List.append_nil]

theorem throw (failure : ε) : Traces (throw failure : Tracing ε α) (.error failure) [] := by
  intro state
  rw [runFrom_throw, CallTree.writeAll_nil, List.append_nil]

/-- A call traces itself around what its body traces. -/
theorem around (call : TracedCall α) {body : Tracing ε α} {outcome : Except ε α}
    {trees : List CallTree} (h : Traces body outcome trees) :
    Traces (call.around body) outcome [.node (call.record outcome) trees] := by
  intro state
  rw [call.runFrom_around (h _)]
  have hindent : state.indent + call.indentStep - call.indentStep = state.indent := by omega
  rw [hindent, CallTree.writeAll_cons_fst, CallTree.write_node_fst]
  simp [CallRecord.enterLine, TracedCall.record]

/-- What comes after a call whose outcome it gets. -/
theorem observing_bind {x : Tracing ε α} {next : Except ε α → Tracing ε β} {outcome : Except ε α}
    {outcome' : Except ε β} {tree : CallTree} {trees : List CallTree}
    (h : Traces x outcome [tree]) (hnext : Traces (next outcome) outcome' trees) :
    Traces (observing x >>= next) outcome' (tree :: trees) := by
  intro state
  rw [runFrom_bind, runFrom_observing, h state]
  simp only [hnext _]
  simp [CallTree.writeAll_cons_fst]

end Traces

end Tracing

/-- A body traces its calls. The indentation is restored after every one of them, so that the next
one finds what the one before has found. -/
theorem TracedBody.traces_run (body : TracedBody ε α) :
    body.run.Traces body.outcome body.calls := by
  induction body with
  | succeed value => exact .pure value
  | fail failure => exact .throw failure
  | perform call body next ihbody ihnext =>
    exact (ihbody.around call).observing_bind (ihnext body.outcome)

/-! ### Every tree is the tree of a call -/

theorem TracedBody.outcome_ending (value? : Option String) :
    (TracedBody.ending value?).outcome.toOption = value? := by
  cases value? <;> rfl

theorem TracedBody.calls_ending (value? : Option String) :
    (TracedBody.ending value?).calls = [] := by
  cases value? <;> rfl

namespace CallTree

mutual
theorem outcome_replay (tree : CallTree) (next : TracedBody Unit String) :
    (tree.replay next).outcome = next.outcome := by
  cases tree with
  | node record inner => rfl
theorem outcome_replayAll (trees : List CallTree) (next : TracedBody Unit String) :
    (replayAll trees next).outcome = next.outcome := by
  cases trees with
  | nil => rfl
  | cons tree trees => rw [replayAll, outcome_replay, outcome_replayAll]
end

mutual
theorem calls_replay (tree : CallTree) (next : TracedBody Unit String) :
    (tree.replay next).calls = tree :: next.calls := by
  cases tree with
  | node record inner =>
    rw [replay, TracedBody.calls]
    rw [calls_replayAll, outcome_replayAll, TracedBody.calls_ending, List.append_nil]
    simp [TracedCall.record, TracedCall.ofRecord, TracedBody.outcome_ending]
theorem calls_replayAll (trees : List CallTree) (next : TracedBody Unit String) :
    (replayAll trees next).calls = trees ++ next.calls := by
  cases trees with
  | nil => rfl
  | cons tree trees => rw [replayAll, calls_replay, calls_replayAll, List.cons_append]
end

/-- Every tree is the tree of a call, in whose body all failures are caught. -/
theorem exists_tree_eq (tree : CallTree) :
    ∃ (call : TracedCall String) (body : TracedBody Unit String), call.tree body = tree := by
  obtain ⟨record, inner⟩ := tree
  -- replayed in front of nothing, the tree is the only call
  have hcalls := calls_replay (.node record inner) (.ending none)
  exact ⟨.ofRecord record, _, (List.cons.inj hcalls).1⟩

/-! ### Calls and their addresses -/

/-- At an address in the tree stands a call with this record, and around it are calls with the
records of `enclosing`, from the outermost one to the caller. An address gives, for each of these,
the place of the next call among those it makes. -/
inductive HasCall : CallTree → (address : List Nat) → (enclosing : List CallRecord) →
    (record : CallRecord) → Prop where
  | outermost {record : CallRecord} {inner : List CallTree} :
      HasCall (.node record inner) [] [] record
  | inside {caller record : CallRecord} {inner : List CallTree} {i : Nat} {tree : CallTree}
      {address : List Nat} {enclosing : List CallRecord} :
      inner[i]? = some tree → HasCall tree address enclosing record →
      HasCall (.node caller inner) (i :: address) (caller :: enclosing) record

end CallTree

/-- In `lines`, which are marked with addresses, the line `entry` and the lines `exit` of an address
stand around all lines of the addresses below it, and around no other lines. -/
def Surrounds (lines : List (List Nat × String)) (address : List Nat) (entry : String)
    (exit : List String) : Prop :=
  ∃ before inside after,
    lines = before ++ (address, entry) :: (inside ++ exit.map (address, ·) ++ after) ∧
    (∀ line ∈ inside, address <+: line.1 ∧ address ≠ line.1) ∧
    ∀ line ∈ before ++ after, ¬ address <+: line.1

namespace Surrounds

variable {lines : List (List Nat × String)} {address : List Nat} {entry : String}
  {exit : List String}

/-- Lines of other addresses may stand around. -/
theorem append (h : Surrounds lines address entry exit) {front back : List (List Nat × String)}
    (hother : ∀ line ∈ front ++ back, ¬ address <+: line.1) :
    Surrounds (front ++ lines ++ back) address entry exit := by
  obtain ⟨before, inside, after, rfl, hinside, houtside⟩ := h
  refine ⟨front ++ before, inside, after ++ back, by simp, hinside, ?_⟩
  intro line hline
  simp only [List.mem_append] at hline hother houtside
  rcases hline with (hfront | hbefore) | hafter | hback
  · exact hother line (.inl hfront)
  · exact houtside line (.inl hbefore)
  · exact houtside line (.inr hafter)
  · exact hother line (.inr hback)

/-- All addresses may be put below a place. -/
theorem below (h : Surrounds lines address entry exit) (i : Nat) :
    Surrounds (lines.map (Prod.map (i :: ·) id)) (i :: address) entry exit := by
  obtain ⟨before, inside, after, rfl, hinside, houtside⟩ := h
  refine ⟨before.map (Prod.map (i :: ·) id), inside.map (Prod.map (i :: ·) id),
    after.map (Prod.map (i :: ·) id), by simp [Function.comp_def], ?_, ?_⟩
  · intro line hline
    obtain ⟨line', hline', rfl⟩ := List.mem_map.1 hline
    simpa using hinside line' hline'
  · intro line hline
    rw [← List.map_append] at hline
    obtain ⟨line', hline', rfl⟩ := List.mem_map.1 hline
    simpa using houtside line' hline'

end Surrounds

namespace CallTree

mutual
/-- The texts of the lines of a call, each marked with the address of the call that writes it. -/
def markedTexts : CallTree → (indent : Int) → List (List Nat × String)
  | .node record inner, indent =>
    ([], (record.enterLine indent).text) ::
      (markedTextsFrom 0 inner (indent + record.indentStep) ++
        ((record.leaveLines indent).map TraceLine.text).map ([], ·))
/-- The marked texts of calls that a caller makes, from the one at place `i` on. -/
def markedTextsFrom (i : Nat) : List CallTree → (indent : Int) → List (List Nat × String)
  | [], _ => []
  | tree :: trees, indent =>
    (tree.markedTexts indent).map (Prod.map (i :: ·) id) ++ markedTextsFrom (i + 1) trees indent
end

mutual
theorem map_snd_markedTexts (tree : CallTree) (indent : Int) :
    (tree.markedTexts indent).map Prod.snd = (tree.write indent).1.map TraceLine.text := by
  cases tree with
  | node record inner =>
    simp [markedTexts, write_node_fst, map_snd_markedTextsFrom inner, Function.comp_def]
theorem map_snd_markedTextsFrom (trees : List CallTree) (i : Nat) (indent : Int) :
    (markedTextsFrom i trees indent).map Prod.snd =
      (writeAll trees indent).1.map TraceLine.text := by
  cases trees with
  | nil => rfl
  | cons tree trees =>
    simp [markedTextsFrom, writeAll_cons_fst, map_snd_markedTexts tree,
      map_snd_markedTextsFrom trees, Function.comp_def]
end

/-- Every line belongs to one of the calls that the caller makes. -/
theorem exists_of_mem_markedTextsFrom {trees : List CallTree} {i : Nat} {indent : Int}
    {line : List Nat × String} (h : line ∈ markedTextsFrom i trees indent) :
    ∃ j tree address, trees[j]? = some tree ∧ line.1 = (i + j) :: address ∧
      (address, line.2) ∈ tree.markedTexts indent := by
  induction trees generalizing i with
  | nil => simp [markedTextsFrom] at h
  | cons tree trees ih =>
    rw [markedTextsFrom, List.mem_append] at h
    rcases h with h | h
    · obtain ⟨⟨address, text⟩, hline, rfl⟩ := List.mem_map.1 h
      exact ⟨0, tree, address, rfl, rfl, hline⟩
    · obtain ⟨j, tree', address, htree', haddress, hline⟩ := ih h
      exact ⟨j + 1, tree', address, htree', by rw [haddress]; congr 1; omega, hline⟩

/-- The lines of a call that a caller makes stand together, and the others belong to other
places. -/
theorem exists_markedTextsFrom_eq {trees : List CallTree} {j : Nat} {tree : CallTree}
    (h : trees[j]? = some tree) (i : Nat) (indent : Int) :
    ∃ front back,
      markedTextsFrom i trees indent =
        front ++ (tree.markedTexts indent).map (Prod.map ((i + j) :: ·) id) ++ back ∧
      ∀ line ∈ front ++ back, ∃ k address, line.1 = k :: address ∧ k ≠ i + j := by
  induction trees generalizing i j with
  | nil => simp at h
  | cons first trees ih =>
    cases j with
    | zero =>
      obtain rfl : first = tree := by simpa using h
      refine ⟨[], markedTextsFrom (i + 1) trees indent, rfl, ?_⟩
      intro line hline
      obtain ⟨k, -, address, -, haddress, -⟩ := exists_of_mem_markedTextsFrom hline
      exact ⟨i + 1 + k, address, haddress, by omega⟩
    | succ j =>
      obtain ⟨front, back, heq, hother⟩ := ih h (i + 1)
      have hplace : i + 1 + j = i + (j + 1) := by omega
      rw [hplace] at heq hother
      refine ⟨(first.markedTexts indent).map (Prod.map (i :: ·) id) ++ front, back, ?_, ?_⟩
      · rw [markedTextsFrom, heq]
        simp only [List.append_assoc]
      · intro line hline
        rw [List.append_assoc, List.mem_append] at hline
        rcases hline with hline | hline
        · obtain ⟨⟨address, text⟩, -, rfl⟩ := List.mem_map.1 hline
          exact ⟨i, address, rfl, by omega⟩
        · exact hother line hline

/-- Every line belongs to a call of the tree. -/
theorem exists_hasCall_of_mem {tree : CallTree} {indent : Int} {address : List Nat} {text : String}
    (h : (address, text) ∈ tree.markedTexts indent) :
    ∃ enclosing record, tree.HasCall address enclosing record := by
  induction address generalizing tree indent with
  | nil =>
    obtain ⟨record, inner⟩ := tree
    exact ⟨[], record, .outermost⟩
  | cons i address ih =>
    obtain ⟨caller, inner⟩ := tree
    -- the lines of the caller itself have the empty address
    have hinner : (i :: address, text) ∈ markedTextsFrom 0 inner (indent + caller.indentStep) := by
      simpa [markedTexts] using h
    obtain ⟨j, tree, address', htree, haddress, hline⟩ := exists_of_mem_markedTextsFrom hinner
    obtain ⟨rfl, rfl⟩ : i = j ∧ address = address' := by simpa using haddress
    obtain ⟨enclosing, record, hcall⟩ := ih hline
    exact ⟨caller :: enclosing, record, .inside htree hcall⟩

/-- The lines of a call stand around those of the calls below it, and they are indented by what the
calls around it add. -/
theorem HasCall.surrounds {tree : CallTree} {address : List Nat} {enclosing : List CallRecord}
    {record : CallRecord} (h : tree.HasCall address enclosing record) (indent : Int) :
    Surrounds (tree.markedTexts indent) address
      (record.enterLine (indent + (enclosing.map CallRecord.indentStep).sum)).text
      ((record.leaveLines (indent + (enclosing.map CallRecord.indentStep).sum)).map
        TraceLine.text) := by
  -- the induction follows the address, so that every caller on the way adds its step
  induction h generalizing indent with
  | @outermost record inner =>
    refine ⟨[], markedTextsFrom 0 inner (indent + record.indentStep), [], ?_, ?_, ?_⟩
    · simp [markedTexts]
    · intro line hline
      obtain ⟨j, -, address, -, haddress, -⟩ := exists_of_mem_markedTextsFrom hline
      simp [haddress]
    · simp
  | @inside caller record inner i tree address enclosing htree _ ih =>
    obtain ⟨front, back, heq, hother⟩ :=
      exists_markedTextsFrom_eq htree 0 (indent + caller.indentStep)
    rw [Nat.zero_add] at heq hother
    have hcall := (ih (indent + caller.indentStep)).below i
    rw [Int.add_assoc, ← List.sum_cons, ← List.map_cons] at hcall
    have hlines : (node caller inner).markedTexts indent =
        (([], (caller.enterLine indent).text) :: front) ++
          (tree.markedTexts (indent + caller.indentStep)).map (Prod.map (i :: ·) id) ++
          (back ++ ((caller.leaveLines indent).map TraceLine.text).map ([], ·)) := by
      rw [markedTexts, heq]
      simp only [List.cons_append, List.append_assoc]
    rw [hlines]
    apply hcall.append
    intro line hline
    have hcases : line.1 = [] ∨ line ∈ front ++ back := by
      simp only [List.cons_append, List.mem_cons, List.mem_append, List.mem_map] at hline ⊢
      rcases hline with rfl | hfront | hback | ⟨text, -, rfl⟩
      · exact .inl rfl
      · exact .inr (.inl hfront)
      · exact .inr (.inr hback)
      · exact .inl rfl
    rcases hcases with hcaller | hplace
    · simp [hcaller]
    · obtain ⟨k, address', haddress, hk⟩ := hother line hplace
      simp [haddress, hk.symm]

/-! ### Main result -/

/-- **Traces are well nested.** Every tree of calls is that of a computation. Each computation with
this tree, whichever of its calls fail and wherever the failures are caught, leaves the running
indentation as it was and adds the lines of the tree to what is written. Each of these lines belongs
to a call. A call whose value is shown has a line on entry and, unless it fails, a line on exit. Both
are indented by what there was before, and by the steps of the calls around it. Between them stand
all lines of the calls below it, and no others. -/
theorem trace_wellNested (tree : CallTree) (indent : Int) (hindent : 0 ≤ indent) :
    (∃ (call : TracedCall String) (body : TracedBody Unit String), call.tree body = tree) ∧
    (∀ {ε α : Type} (call : TracedCall α) (body : TracedBody ε α) (written : List TraceLine),
      call.tree body = tree →
        (call.around body.run).runFrom ⟨indent, written⟩ =
          (body.outcome, ⟨indent, written ++ (tree.write indent).1⟩)) ∧
    (tree.write indent).2 = indent ∧
    ∃ lines : List (List Nat × String),
      lines.map Prod.snd = (tree.write indent).1.map TraceLine.text ∧
      (∀ line ∈ lines, ∃ enclosing record, tree.HasCall line.1 enclosing record) ∧
      ∀ address enclosing record, tree.HasCall address enclosing record →
        (∀ caller ∈ enclosing, 0 ≤ caller.indentStep) → record.showValue = true →
        ∃ n : Nat, n = indent + (enclosing.map CallRecord.indentStep).sum ∧
          Surrounds lines address
            (String.ofList (List.replicate n ' ') ++ "--> " ++ record.name ++ "(" ++
              Text.commaSeparated record.args ++ ")\n")
            (record.value?.toList.map fun value =>
              String.ofList (List.replicate n ' ') ++ "<-- " ++ record.name ++ " == " ++ value ++
                "\n\n") := by
  refine ⟨tree.exists_tree_eq, ?_, tree.write_snd indent, tree.markedTexts indent,
    tree.map_snd_markedTexts indent, ?_, ?_⟩
  · rintro ε α call body written rfl
    have hcall := body.traces_run.around call ⟨indent, written⟩
    rwa [writeAll_cons_fst, writeAll_nil, List.append_nil] at hcall
  · rintro ⟨address, text⟩ hline
    exact exists_hasCall_of_mem hline
  · intro address enclosing record hcall hsteps hshow
    have hsum : 0 ≤ (enclosing.map CallRecord.indentStep).sum := by
      apply List.sum_nonneg
      simpa using hsteps
    -- none of the summands is negative, so the indentation is a number of spaces
    obtain ⟨n, hn⟩ := Int.eq_ofNat_of_zero_le (Int.add_nonneg hindent hsum)
    refine ⟨n, hn.symm, ?_⟩
    have hsurrounds := hcall.surrounds indent
    rw [hn] at hsurrounds
    rwa [CallRecord.map_text_leaveLines hshow] at hsurrounds

/-- A call of `f` that calls `g`, which calls `h`. The failure of `h` is passed on by `g` and caught
by `f`, which calls `k` next. -/
def sampleCalls : TracedCall String × TracedBody String String :=
  (⟨"f", ["P(x)", "True"], 2, true, id⟩,
    .perform ⟨"g", [], 3, true, id⟩
      (.perform ⟨"h", [], 1, true, id⟩ (.fail "no value") fun
        | .ok value => .succeed value
        | .error failure => .fail failure)
      fun _ => .perform ⟨"k", [], 4, true, id⟩ (.succeed "1") fun _ => .succeed "2")

theorem trace_wellNested_sample :
    (0 : Int) ≤ 1 ∧
    (∀ written, (sampleCalls.1.around sampleCalls.2.run).runFrom ⟨1, written⟩ =
      (.ok "2", ⟨1, written ++ ((sampleCalls.1.tree sampleCalls.2).write 1).1⟩)) ∧
    (sampleCalls.1.tree sampleCalls.2).HasCall [0, 0]
      [⟨"f", ["P(x)", "True"], some "2", 2, true⟩, ⟨"g", [], none, 3, true⟩]
      ⟨"h", [], none, 1, true⟩ ∧
    ∃ lines : List (List Nat × String),
      lines.map Prod.snd = [" --> f(P(x), True)\n", "   --> g()\n", "      --> h()\n",
        "   --> k()\n", "   <-- k == 1\n\n", " <-- f == 2\n\n"] ∧
      Surrounds lines [0, 0] "      --> h()\n" [] ∧
      Surrounds lines [] " --> f(P(x), True)\n" [" <-- f == 2\n\n"] := by
  have hh : (sampleCalls.1.tree sampleCalls.2).HasCall [0, 0]
      [⟨"f", ["P(x)", "True"], some "2", 2, true⟩, ⟨"g", [], none, 3, true⟩]
      ⟨"h", [], none, 1, true⟩ := .inside rfl (.inside rfl .outermost)
  obtain ⟨-, hruns, -, lines, htexts, -, hcalls⟩ :=
    trace_wellNested (sampleCalls.1.tree sampleCalls.2) 1 (by decide)
  refine ⟨by decide, fun written => hruns _ _ written rfl, hh, lines, ?_, ?_, ?_⟩
  · rw [htexts]
    decide +kernel
  · obtain ⟨n, hn, hsurrounds⟩ := hcalls _ _ _ hh (by decide) rfl
    obtain rfl : n = 6 := Int.ofNat_inj.1 hn
    exact hsurrounds
  · obtain ⟨n, hn, hsurrounds⟩ := hcalls _ _ _ .outermost (by decide) rfl
    obtain rfl : n = 1 := Int.ofNat_inj.1 hn
    exact hsurrounds

end CallTree

end LogicForms
