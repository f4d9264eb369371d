import BeginningStudent.Eval
import BeginningStudent.Proofs.Resolved

/-!
# Conditionals and their branches

`cond`, `and` and `or` are lowered to nested branches. `CondRule` and `ConnectiveRule` say what they
mean without branches, one clause or operand after the other, and the branches that resolution
makes are evaluated by these rules and by no others (`lowering_follows_rules`).

An evaluation is observed by its result and by the calls that it makes, in their order.
-/

namespace BeginningStudent

/-! ### Evaluations -/

/-- What there is to see of an evaluation: the procedures that it calls with their arguments, in
order, and its result. -/
structure Evaluation where
  calls : List (Value × List Value)
  result : Except EvalError Value

def Evaluation.after (r : Evaluation) (calls : List (Value × List Value)) : Evaluation :=
  { r with calls := calls ++ r.calls }

namespace Expr

section

variable (call : Caller) (env : Environment)

mutual

/-- The calls that the evaluation of an expression makes. Calls inside of called closures are the
affair of `call`. -/
def calls : Expr → List (Value × List Value)
  | .call callee arguments =>
    calls callee ++
      match eval call env callee with
      | .error _ => []
      | .ok procedure =>
        callsAll arguments ++
          match evalAll call env arguments with
          | .error _ => []
          | .ok args => [(procedure, args)]
  | .branch _ question answer otherwise =>
    calls question ++
      match eval call env question with
      | .ok (.boolean true) => calls answer
      | .ok (.boolean false) => callsElse otherwise
      | _ => []
  | .define _ _ | .defineStruct _ _ | .lambda _ _ _ _ | .identifier _ | .literal _ | .quoted _ => []

def callsAll : List Expr → List (Value × List Value)
  | [] => []
  | e :: rest =>
    calls e ++
      match eval call env e with
      | .error _ => []
      | .ok _ => callsAll rest

def callsElse : Option Expr → List (Value × List Value)
  | some e => calls e
  | none => []

end

def evaluation (e : Expr) : Evaluation := ⟨calls call env e, eval call env e⟩

def evaluationElse (otherwise : Option Expr) : Evaluation :=
  ⟨callsElse call env otherwise, evalElse call env otherwise⟩

end

end Expr

/-! ### The rules -/

/-- The rules of `cond`, given how its questions and answers are evaluated: the answer of the first
question that is true, with all questions up to it evaluated in order. -/
inductive CondRule (run : Expr → Evaluation) :
    List (Expr × Expr) → Option Expr → Evaluation → Prop
  | allFalse : CondRule run [] none ⟨[], .error .allFalse⟩
  | otherwise {e} : CondRule run [] (some e) (run e)
  | answer {q a rest o cs} (hq : run q = ⟨cs, .ok (.boolean true)⟩) :
    CondRule run ((q, a) :: rest) o ((run a).after cs)
  | next {q a rest o cs r} (hq : run q = ⟨cs, .ok (.boolean false)⟩) (h : CondRule run rest o r) :
    CondRule run ((q, a) :: rest) o (r.after cs)
  | notBoolean {q a rest o cs v} (hq : run q = ⟨cs, .ok v⟩) (hv : ∀ b, v ≠ .boolean b) :
    CondRule run ((q, a) :: rest) o ⟨cs, .error (.notBoolean .cond v)⟩
  | error {q a rest o cs e} (hq : run q = ⟨cs, .error e⟩) :
    CondRule run ((q, a) :: rest) o ⟨cs, .error e⟩

/-- The rules of `and` and `or`, which stop at the first operand that is `stop`. Every operand that
is evaluated must be a boolean. -/
inductive ConnectiveRule (run : Expr → Evaluation) (form : Conditional) (stop : Bool) :
    List Expr → Evaluation → Prop
  | exhausted : ConnectiveRule run form stop [] ⟨[], .ok (.boolean !stop)⟩
  | stops {e rest cs} (he : run e = ⟨cs, .ok (.boolean stop)⟩) :
    ConnectiveRule run form stop (e :: rest) ⟨cs, .ok (.boolean stop)⟩
  | next {e rest cs r} (he : run e = ⟨cs, .ok (.boolean !stop)⟩)
    (h : ConnectiveRule run form stop rest r) : ConnectiveRule run form stop (e :: rest) (r.after cs)
  | notBoolean {e rest cs v} (he : run e = ⟨cs, .ok v⟩) (hv : ∀ b, v ≠ .boolean b) :
    ConnectiveRule run form stop (e :: rest) ⟨cs, .error (.notBoolean form v)⟩
  | error {e rest cs err} (he : run e = ⟨cs, .error err⟩) :
    ConnectiveRule run form stop (e :: rest) ⟨cs, .error err⟩

/-! ### Branches -/

namespace Expr

variable {call : Caller} {env : Environment}

def afterQuestion (call : Caller) (env : Environment) (form : Conditional) (answer : Expr)
    (otherwise : Option Expr) : Evaluation → Evaluation
  | ⟨cs, .ok (.boolean true)⟩ => (answer.evaluation call env).after cs
  | ⟨cs, .ok (.boolean false)⟩ => (evaluationElse call env otherwise).after cs
  | ⟨cs, .ok v⟩ => ⟨cs, .error (.notBoolean form v)⟩
  | ⟨cs, .error e⟩ => ⟨cs, .error e⟩

theorem evaluation_branch (form : Conditional) (question answer : Expr) (otherwise : Option Expr) :
    (branch form question answer otherwise).evaluation call env =
      afterQuestion call env form answer otherwise (question.evaluation call env) := by
  rw [evaluation, calls, eval, evaluation]
  rcases eval call env question with e | v
  · simp [afterQuestion, bind, Except.bind]
  · cases v with
    | boolean b => cases b <;> rfl
    | _ => simp [afterQuestion, bind, Except.bind]

theorem evaluation_boolean (b : Bool) :
    (boolean b).evaluation call env = ⟨[], .ok (.boolean b)⟩ := by
  rw [evaluation, boolean, calls, eval, Value.ofDatum]

theorem afterQuestion_notBoolean {form : Conditional} {answer : Expr} {otherwise : Option Expr}
    {cs : List (Value × List Value)} {v : Value} (hv : ∀ b, v ≠ .boolean b) :
    afterQuestion call env form answer otherwise ⟨cs, .ok v⟩ = ⟨cs, .error (.notBoolean form v)⟩ := by
  cases v with
  | boolean b => exact absurd rfl (hv b)
  | _ => rfl

/-! ### The lowered forms -/

theorem cond?_cons (c : Expr × Expr) (clauses : List (Expr × Expr)) (otherwise : Option Expr) :
    cond? (c :: clauses) otherwise = some (.branch .cond c.1 c.2 (cond? clauses otherwise)) := rfl

theorem evaluationElse_some (e : Expr) :
    evaluationElse call env (some e) = e.evaluation call env := rfl

/-- There is a rule for every outcome of every question. -/
theorem cond?_rule (clauses : List (Expr × Expr)) (otherwise : Option Expr) :
    CondRule (evaluation call env) clauses otherwise
      (evaluationElse call env (cond? clauses otherwise)) := by
  induction clauses with
  | nil =>
    cases otherwise with
    | none => exact .allFalse
    | some e => exact .otherwise
  | cons c clauses ih =>
    obtain ⟨q, a⟩ := c
    rw [cond?_cons, evaluationElse_some, evaluation_branch]
    rcases hq : q.evaluation call env with ⟨cs, e | v⟩
    · exact .error hq
    · by_cases hv : ∃ b, v = .boolean b
      · obtain ⟨b, rfl⟩ := hv
        cases b with
        | true => exact .answer hq
        | false => exact .next hq ih
      · rw [not_exists] at hv
        rw [afterQuestion_notBoolean hv]
        exact .notBoolean hq hv

theorem eq_of_condRule {clauses : List (Expr × Expr)} {otherwise : Option Expr} {r : Evaluation}
    (h : CondRule (evaluation call env) clauses otherwise r) :
    evaluationElse call env (cond? clauses otherwise) = r := by
  induction h with
  | allFalse => rfl
  | otherwise => rfl
  | answer hq => rw [cond?_cons, evaluationElse_some, evaluation_branch, hq, afterQuestion]
  | next hq _ ih => rw [cond?_cons, evaluationElse_some, evaluation_branch, hq, afterQuestion, ih]
  | notBoolean hq hv =>
    rw [cond?_cons, evaluationElse_some, evaluation_branch, hq, afterQuestion_notBoolean hv]
  | error hq => rw [cond?_cons, evaluationElse_some, evaluation_branch, hq, afterQuestion]

/-- What a connective makes of the evaluation of its first operand and of its other operands. -/
def afterOperand (form : Conditional) (stop : Bool) (rest : Evaluation) : Evaluation → Evaluation
  | ⟨cs, .ok (.boolean b)⟩ => if b = stop then ⟨cs, .ok (.boolean b)⟩ else rest.after cs
  | ⟨cs, .ok v⟩ => ⟨cs, .error (.notBoolean form v)⟩
  | ⟨cs, .error e⟩ => ⟨cs, .error e⟩

theorem afterOperand_notBoolean {form : Conditional} {stop : Bool} {rest : Evaluation}
    {cs : List (Value × List Value)} {v : Value} (hv : ∀ b, v ≠ .boolean b) :
    afterOperand form stop rest ⟨cs, .ok v⟩ = ⟨cs, .error (.notBoolean form v)⟩ := by
  cases v with
  | boolean b => exact absurd rfl (hv b)
  | _ => rfl

theorem evaluation_boolean_after (b : Bool) (cs : List (Value × List Value)) :
    ((boolean b).evaluation call env).after cs = ⟨cs, .ok (.boolean b)⟩ := by
  rw [evaluation_boolean, Evaluation.after, List.append_nil]

theorem evaluation_conjunction (e : Expr) (rest : List Expr) :
    (conjunction (e :: rest)).evaluation call env =
      afterOperand .conjunction false ((conjunction rest).evaluation call env)
        (e.evaluation call env) := by
  change (branch .conjunction e (conjunction rest) (some (boolean false))).evaluation call env = _
  rw [evaluation_branch]
  rcases e.evaluation call env with ⟨cs, err | v⟩
  · rfl
  · cases v with
    | boolean b =>
      cases b
      · rw [afterQuestion, evaluationElse_some, evaluation_boolean_after, afterOperand, if_pos rfl]
      · rfl
    | _ => rfl

theorem evaluation_disjunction (e : Expr) (rest : List Expr) :
    (disjunction (e :: rest)).evaluation call env =
      afterOperand .disjunction true ((disjunction rest).evaluation call env)
        (e.evaluation call env) := by
  change (branch .disjunction e (boolean true) (some (disjunction rest))).evaluation call env = _
  rw [evaluation_branch]
  rcases e.evaluation call env with ⟨cs, err | v⟩
  · rfl
  · cases v with
    | boolean b =>
      cases b
      · rfl
      · rw [afterQuestion, evaluation_boolean_after, afterOperand, if_pos rfl]
    | _ => rfl

/-- A way to lower operands that takes them one by one follows the rules of the connective. -/
theorem evaluation_iff_connectiveRule {form : Conditional} {stop : Bool} {lower : List Expr → Expr}
    (hnil : (lower []).evaluation call env = ⟨[], .ok (.boolean !stop)⟩)
    (hcons : ∀ e rest, (lower (e :: rest)).evaluation call env =
      afterOperand form stop ((lower rest).evaluation call env) (e.evaluation call env))
    (operands : List Expr) (r : Evaluation) :
    (lower operands).evaluation call env = r ↔
      ConnectiveRule (evaluation call env) form stop operands r := by
  constructor
  · rintro rfl
    induction operands with
    | nil =>
      rw [hnil]
      exact .exhausted
    | cons e operands ih =>
      rw [hcons]
      rcases he : e.evaluation call env with ⟨cs, err | v⟩
      · exact .error he
      · by_cases hv : ∃ b, v = .boolean b
        · obtain ⟨b, rfl⟩ := hv
          rw [afterOperand]
          by_cases hb : b = stop
          · subst hb
            rw [if_pos rfl]
            exact .stops he
          · obtain rfl : b = !stop := by cases b <;> cases stop <;> simp_all
            rw [if_neg hb]
            exact .next he ih
        · rw [not_exists] at hv
          rw [afterOperand_notBoolean hv]
          exact .notBoolean he hv
  · intro h
    induction h with
    | exhausted => exact hnil
    | stops he => rw [hcons, he, afterOperand, if_pos rfl]
    | next he _ ih =>
      have hne : ¬(!stop) = stop := by cases stop <;> decide
      rw [hcons, he, afterOperand, if_neg hne, ih]
    | notBoolean he hv => rw [hcons, he, afterOperand_notBoolean hv]
    | error he => rw [hcons, he, afterOperand]

end Expr

/-! ### Resolution of conditionals -/

namespace Form

/-- The parts of a form mean the expressions, each at its own place. -/
inductive PartsMean (t : SymbolTable) (site : Option Site) : Nat → List Form → List Expr → Prop
  | nil {i} : PartsMean t site i [] []
  | cons {i f fs e es} (he : f.resolve t (partSite site i) = .ok e)
    (h : PartsMean t site (i + 1) fs es) : PartsMean t site i (f :: fs) (e :: es)

/-- The clauses mean the questions with their answers, and the answer of an `else` clause at their
end. -/
inductive ClausesMean (t : SymbolTable) (site : Option Site) :
    Nat → List Form → List (Expr × Expr) → Option Expr → Prop
  | nil {i} : ClausesMean t site i [] [] none
  | otherwise {i answer a} (ha : answer.resolve t (partSite site (2 * i + 1)) = .ok a) :
    ClausesMean t site i [.group [.keyword .elseClause, answer]] [] (some a)
  | clause {i question answer rest q a cs o} (hne : question ≠ .keyword .elseClause)
    (hq : question.resolve t (partSite site (2 * i)) = .ok q)
    (ha : answer.resolve t (partSite site (2 * i + 1)) = .ok a)
    (h : ClausesMean t site (i + 1) rest cs o) :
    ClausesMean t site i (.group [question, answer] :: rest) ((q, a) :: cs) o

variable {t : SymbolTable} {site : Option Site}

theorem resolveAll_ok {i : Nat} {fs : List Form} {es : List Expr} :
    resolveAll t site i fs = .ok es ↔ PartsMean t site i fs es := by
  constructor
  · intro h
    induction fs generalizing i es with
    | nil =>
      rw [resolveAll] at h
      cases h
      exact .nil
    | cons f fs ih =>
      rw [resolveAll] at h
      obtain ⟨e, he, h⟩ := bind_ok.mp h
      obtain ⟨es', hes, h⟩ := bind_ok.mp h
      cases h
      exact .cons he (ih hes)
  · intro h
    induction h with
    | nil => rw [resolveAll]
    | cons he _ ih =>
      rw [resolveAll, he, ih]
      rfl

theorem resolveClauses_ok {i : Nat} {clauses : List Form} {cs : List (Expr × Expr)}
    {o : Option Expr} :
    resolveClauses t site i clauses = .ok (cs, o) ↔ ClausesMean t site i clauses cs o := by
  constructor
  · intro h
    match clauses with
    | [] =>
      rw [resolveClauses] at h
      cases h
      exact .nil
    | .group [question, answer] :: rest =>
      by_cases hq : question = .keyword .elseClause
      · subst hq
        rw [resolveClauses] at h
        split at h
        next hrest =>
          obtain rfl := List.isEmpty_iff.mp hrest
          obtain ⟨a, ha, h⟩ := bind_ok.mp h
          cases h
          exact .otherwise ha
        next => cases h
      · rw [resolveClauses_question hq] at h
        obtain ⟨q, hqe, h⟩ := bind_ok.mp h
        obtain ⟨a, hae, h⟩ := bind_ok.mp h
        obtain ⟨⟨cs', o'⟩, hrest, h⟩ := bind_ok.mp h
        cases h
        exact .clause hq hqe hae (resolveClauses_ok.mp hrest)
    | .group [] :: _ | .group [_] :: _ | .group (_ :: _ :: _ :: _) :: _ | .name _ :: _
    | .keyword _ :: _ | .number _ :: _ | .string _ :: _ | .boolean _ :: _ =>
      rw [resolveClauses] at h
      · cases h
      all_goals simp
  · intro h
    induction h with
    | nil => rw [resolveClauses]
    | otherwise ha =>
      rw [resolveClauses, ha]
      rfl
    | clause hne hq ha _ ih =>
      rw [resolveClauses_question hne, hq, ha, ih]
      rfl

theorem ClausesMean.cond? {i : Nat} {clauses : List Form} {cs : List (Expr × Expr)}
    {o : Option Expr} (h : ClausesMean t site i clauses cs o) (hne : clauses ≠ []) :
    ∃ e, Expr.cond? cs o = some e := by
  cases h with
  | nil => exact absurd rfl hne
  | otherwise => exact ⟨_, rfl⟩
  | clause => exact ⟨_, rfl⟩

theorem resolve_cond {clauses : List Form} {e : Expr} :
    (group (.keyword .cond :: clauses)).resolve t site = .ok e ↔
      clauses ≠ [] ∧ ∃ cs o, ClausesMean t site 0 clauses cs o ∧ Expr.cond? cs o = some e := by
  rw [resolve]
  by_cases hne : clauses = []
  · subst hne
    rw [resolveSpecial]
    simp
  rw [resolveSpecial_cond hne, bind_ok]
  constructor
  · rintro ⟨⟨cs, o⟩, hcs, h⟩
    have hmean := resolveClauses_ok.mp hcs
    obtain ⟨e', he'⟩ := hmean.cond? hne
    dsimp only at h
    rw [he'] at h
    cases h
    exact ⟨hne, cs, o, hmean, he'⟩
  · rintro ⟨-, cs, o, hmean, he⟩
    refine ⟨(cs, o), resolveClauses_ok.mpr hmean, ?_⟩
    dsimp only
    rw [he]

theorem resolve_conjunction {parts : List Form} {e : Expr} :
    (group (.keyword .conjunction :: parts)).resolve t site = .ok e ↔
      2 ≤ parts.length ∧ ∃ es, PartsMean t site 0 parts es ∧ Expr.conjunction es = e := by
  rw [resolve, resolveSpecial]
  by_cases hn : 2 ≤ parts.length
  · rw [if_pos hn, map_ok]
    simp only [resolveAll_ok, hn, true_and]
  · simp [hn]

theorem resolve_disjunction {parts : List Form} {e : Expr} :
    (group (.keyword .disjunction :: parts)).resolve t site = .ok e ↔
      2 ≤ parts.length ∧ ∃ es, PartsMean t site 0 parts es ∧ Expr.disjunction es = e := by
  rw [resolve, resolveSpecial]
  by_cases hn : 2 ≤ parts.length
  · rw [if_pos hn, map_ok]
    simp only [resolveAll_ok, hn, true_and]
  · simp [hn]

end Form

/-! ### Lowering -/

theorem Expr.evaluation_iff_condRule {clauses : List (Expr × Expr)} {otherwise : Option Expr}
    {e : Expr} (he : cond? clauses otherwise = some e) (call : Caller) (env : Environment)
    (r : Evaluation) :
    e.evaluation call env = r ↔ CondRule (evaluation call env) clauses otherwise r := by
  rw [← evaluationElse_some, ← he]
  constructor
  · rintro rfl
    exact cond?_rule clauses otherwise
  · exact eq_of_condRule

theorem Expr.conjunction_iff_connectiveRule (operands : List Expr) (call : Caller)
    (env : Environment) (r : Evaluation) :
    (conjunction operands).evaluation call env = r ↔
      ConnectiveRule (evaluation call env) .conjunction false operands r :=
  evaluation_iff_connectiveRule (evaluation_boolean true) evaluation_conjunction operands r

theorem Expr.disjunction_iff_connectiveRule (operands : List Expr) (call : Caller)
    (env : Environment) (r : Evaluation) :
    (disjunction operands).evaluation call env = r ↔
      ConnectiveRule (evaluation call env) .disjunction true operands r :=
  evaluation_iff_connectiveRule (evaluation_boolean false) evaluation_disjunction operands r

/-- A form that is resolved to branches is evaluated by its rules, in every environment and
whatever calls give: `cond` with at least one clause, `and` and `or` with at least two operands. The
parts of the form mean the expressions that the rules are about. -/
theorem lowering_follows_rules (t : SymbolTable) (site : Option Site) :
    (∀ clauses e, (Form.group (.keyword .cond :: clauses)).resolve t site = .ok e ↔
      clauses ≠ [] ∧ ∃ cs o, Form.ClausesMean t site 0 clauses cs o ∧ Expr.cond? cs o = some e ∧
        ∀ call env r, e.evaluation call env = r ↔ CondRule (Expr.evaluation call env) cs o r) ∧
    (∀ clauses cs o, clauses ≠ [] → Form.ClausesMean t site 0 clauses cs o →
      ∃ e, (Form.group (.keyword .cond :: clauses)).resolve t site = .ok e) ∧
    (∀ parts e, (Form.group (.keyword .conjunction :: parts)).resolve t site = .ok e ↔
      2 ≤ parts.length ∧ ∃ es, Form.PartsMean t site 0 parts es ∧ Expr.conjunction es = e ∧
        ∀ call env r, e.evaluation call env = r ↔
          ConnectiveRule (Expr.evaluation call env) .conjunction false es r) ∧
    (∀ parts e, (Form.group (.keyword .disjunction :: parts)).resolve t site = .ok e ↔
      2 ≤ parts.length ∧ ∃ es, Form.PartsMean t site 0 parts es ∧ Expr.disjunction es = e ∧
        ∀ call env r, e.evaluation call env = r ↔
          ConnectiveRule (Expr.evaluation call env) .disjunction true es r) ∧
    (∀ form v, (EvalError.notBoolean form v).message =
      form.name ++ ": question result is not true or false: " ++ v.text) ∧
    EvalError.allFalse.message = "cond: all question results were false" := by
  refine ⟨fun clauses e => ?_, fun clauses cs o hne hcs => ?_, fun parts e => ?_, fun parts e => ?_,
    fun _ _ => rfl, rfl⟩
  · rw [Form.resolve_cond]
    constructor
    · rintro ⟨hne, cs, o, hcs, he⟩
      exact ⟨hne, cs, o, hcs, he, Expr.evaluation_iff_condRule he⟩
    · rintro ⟨hne, cs, o, hcs, he, -⟩
      exact ⟨hne, cs, o, hcs, he⟩
  · obtain ⟨e, he⟩ := hcs.cond? hne
    exact ⟨e, Form.resolve_cond.mpr ⟨hne, cs, o, hcs, he⟩⟩
  · rw [Form.resolve_conjunction]
    constructor
    · rintro ⟨hn, es, hes, rfl⟩
      exact ⟨hn, es, hes, rfl, Expr.conjunction_iff_connectiveRule es⟩
    · rintro ⟨hn, es, hes, he, -⟩
      exact ⟨hn, es, hes, he⟩
  · rw [Form.resolve_disjunction]
    constructor
    · rintro ⟨hn, es, hes, rfl⟩
      exact ⟨hn, es, hes, rfl, Expr.disjunction_iff_connectiveRule es⟩
    · rintro ⟨hn, es, hes, he, -⟩
      exact ⟨hn, es, hes, he⟩

theorem lowering_follows_rules_else :
    ∃ e, (Form.group [.keyword .cond, .group [.boolean false, .string "no"],
        .group [.keyword .elseClause, .string "yes"]]).resolve .empty none = .ok e ∧
      ∀ call env, e.evaluation call env = ⟨[], .ok (.string "yes")⟩ := by
  have hparts : Form.ClausesMean .empty none 0
      [.group [.boolean false, .string "no"], .group [.keyword .elseClause, .string "yes"]]
      [(.boolean false, .literal (.string "no"))] (some (.literal (.string "yes"))) :=
    .clause nofun (by rw [Form.resolve, Expr.boolean]) (by rw [Form.resolve])
      (.otherwise (by rw [Form.resolve]))
  obtain ⟨hcond, hmade, -⟩ := lowering_follows_rules .empty none
  obtain ⟨e, he⟩ := hmade _ _ _ (List.cons_ne_nil _ _) hparts
  obtain ⟨-, cs, o, hcs, -, hrule⟩ := (hcond _ e).mp he
  have hsame := (Form.resolveClauses_ok.mpr hcs).symm.trans (Form.resolveClauses_ok.mpr hparts)
  cases hsame
  refine ⟨e, he, fun call env => (hrule call env _).mpr ?_⟩
  have hno : (Expr.boolean false).evaluation call env = ⟨[], .ok (.boolean false)⟩ :=
    Expr.evaluation_boolean false
  have hyes : (Expr.literal (.string "yes")).evaluation call env = ⟨[], .ok (.string "yes")⟩ := by
    rw [Expr.evaluation, Expr.calls, Expr.eval, Value.ofDatum]
  rw [← hyes]
  exact .next hno .otherwise

end BeginningStudent
