import Resolution.CommandLine.Program
import Resolution.Proofs.JsonTexts
import Resolution.Proofs.Reports
import Resolution.Scratch

/-!
# Command lines that prove a text

A command line may name a text and a limit and ask for nothing but the report. The rules for options
hand both over as they are written, and the program then reports what an attempt to prove the text
reports, or complains of the text as reading it would. The empty text is an exception: the program
takes it for one that was not given and proves a sample in its place.
-/

namespace Resolution

namespace Text

theorem digitValue?_of_isDigit {c : Char} (h : c.isDigit = true) :
    digitValue? c = some (c.toNat - '0'.toNat) := by
  have hrange : 0x30 ≤ c.toNat ∧ c.toNat < 0x30 + 10 := by
    rw [Char.isDigit] at h
    simp only [Bool.and_eq_true, decide_eq_true_eq] at h
    exact ⟨h.1, Nat.lt_succ_of_le h.2⟩
  simp [digitValue?, digitZeros, hrange]

theorem readDigits_of_isDigit {digits : List Char} (h : ∀ c ∈ digits, c.isDigit = true)
    (value : Nat) : readDigits value digits = some (Nat.ofDigitChars 10 digits value) := by
  induction digits generalizing value with
  | nil => rfl
  | cons c digits ih =>
      have hc : c.isDigit = true := h c List.mem_cons_self
      rw [readDigits, digitValue?_of_isDigit hc]
      · exact ih (fun d hd => h d (List.mem_cons_of_mem c hd)) _
      · intro _ _ hunderscore
        rw [hunderscore] at hc
        exact absurd hc (by decide)

theorem readNat?_toDigits (n : Nat) : readNat? (Nat.toDigits 10 n) = some n := by
  have hvalue : Nat.ofDigitChars 10 (Nat.toDigits 10 n) 0 = n := Nat.ofDigitChars_ten_toDigits
  have hall : ∀ c ∈ Nat.toDigits 10 n, c.isDigit = true := fun c => Json.isDigit_of_mem_toDigits
  cases hdigits : Nat.toDigits 10 n with
  | nil => exact absurd hdigits Nat.toDigits_ne_nil
  | cons c tail =>
      rw [hdigits] at hvalue hall
      rw [readNat?, digitValue?_of_isDigit (hall c List.mem_cons_self)]
      have htail : ∀ d ∈ tail, d.isDigit = true := fun d hd => hall d (List.mem_cons_of_mem c hd)
      rw [Option.bind_eq_bind, Option.bind_some, readDigits_of_isDigit htail, ← hvalue]
      simp [Nat.ofDigitChars_cons]

theorem trimBy_eq_self {p : Char → Bool} {text : List Char} (h : ∀ c ∈ text, p c = false) :
    trimBy p text = text := by
  have hdrop : ∀ l : List Char, (∀ c ∈ l, p c = false) → l.dropWhile p = l := by
    intro l hl
    cases l with
    | nil => rfl
    | cons c l => simp [hl c List.mem_cons_self]
  rw [trimBy, hdrop text h, hdrop text.reverse fun c hc => h c (List.mem_reverse.1 hc),
    List.reverse_reverse]

theorem isNumberMargin_of_isDigit {c : Char} (h : c.isDigit = true) :
    isNumberMargin c = false := by
  have hrange : 48 ≤ c.toNat ∧ c.toNat ≤ 57 := by
    rw [Char.isDigit] at h
    simp only [Bool.and_eq_true, decide_eq_true_eq] at h
    exact h
  have hblank : isBlank c = false := by
    simp only [isBlank, covers, blankRanges, Bool.and_eq_false_iff, Bool.or_eq_false_iff,
      decide_eq_false_iff_not]
    omega
  rw [isNumberMargin, hblank, Bool.false_and]

/-- An integer is read from what is written for it. -/
theorem readInt?_toString (n : Int) : readInt? (toString n).toList = some n := by
  have htext : (toString n).toList = (if n < 0 then ['-'] else []) ++ Nat.toDigits 10 n.natAbs :=
    Json.chars_int 0 n
  have hmargin : ∀ c ∈ (toString n).toList, isNumberMargin c = false := by
    intro c hc
    rw [htext, List.mem_append] at hc
    rcases hc with hc | hc
    · have hminus : c = '-' := by grind
      rw [hminus]
      decide
    · exact isNumberMargin_of_isDigit (Json.isDigit_of_mem_toDigits hc)
  rw [readInt?, trimBy_eq_self hmargin, htext]
  by_cases hn : n < 0
  · have habs : -(n.natAbs : Int) = n := by omega
    rw [if_pos hn, List.singleton_append]
    simp only [readNat?_toDigits]
    exact congrArg some habs
  · have habs : (n.natAbs : Int) = n := by omega
    obtain ⟨c, tail, hdigits, hc, -⟩ := Json.exists_toDigits_eq_cons n.natAbs
    have hvalue := readNat?_toDigits n.natAbs
    rw [if_neg hn, List.nil_append]
    rw [hdigits] at hvalue ⊢
    split
    · next hminus =>
        rw [(List.cons.inj hminus).1] at hc
        exact absurd hc (by decide)
    · next hplus =>
        rw [(List.cons.inj hplus).1] at hc
        exact absurd hc (by decide)
    · rw [hvalue]
      exact congrArg some habs

end Text

namespace CommandLine

open OptionName

theorem splitAtEquals_append {front : List Char} (h : '=' ∉ front) (back : List Char) :
    splitAtEquals (front ++ '=' :: back) = (front, some back) := by
  have hfront : ∀ c ∈ front, decide (c ≠ '=') = true := by
    intro c hc
    rw [decide_eq_true_eq]
    intro e
    exact h (e ▸ hc)
  rw [splitAtEquals, List.dropWhile_append_of_pos hfront, List.takeWhile_append_of_pos hfront]
  simp

/-- An option with a value behind an equals sign is taken for that option, whatever the value. -/
theorem classify_assigned {name : String} {option : OptionName} {rest : List Char}
    (hdashes : name.toList = '-' :: '-' :: rest) (hequals : '=' ∉ name.toList)
    (hlookup : OptionName.table.lookup name = some option) (value : String) :
    classify (name ++ "=" ++ value) = some (.option option (some value)) := by
  have hchars : (name ++ "=" ++ value).toList = name.toList ++ '=' :: value.toList := by
    simp
  have hreadings : readings (name ++ "=" ++ value).toList = [.option option (some value)] := by
    have hsplit := splitAtEquals_append hequals value.toList
    have hname : String.ofList ('-' :: '-' :: rest) = name := by
      rw [← hdashes, String.ofList_toList]
    rw [hchars]
    rw [hdashes] at hsplit ⊢
    rw [List.cons_append, List.cons_append] at hsplit ⊢
    simp only [readings, hsplit, hname, hlookup, Option.map_some, String.ofList_toList]
  simp only [classify, hreadings]

/-- The command line that has a text proved without a word more than the report. -/
def provingArguments (text : String) (maxPasses : Int) (fullLog : Bool) : List String :=
  ["--clauses=" ++ text, "--max-passes=" ++ toString maxPasses, "--quiet"] ++
    if fullLog then ["--full-log"] else []

/-- The options of that command line. -/
def provingOptions (text : String) (maxPasses : Int) (fullLog : Bool) : Options :=
  { clauses := text, maxPasses, fullLog, quiet := true }

theorem classifyAll_cons {text : String} {argument : Argument} (h : text ≠ "--")
    (hargument : classify text = some argument) (rest : List String) :
    classifyAll (text :: rest) = (classifyAll rest).map (argument :: ·) := by
  rw [classifyAll, if_neg h, hargument]
  cases classifyAll rest <;> rfl

theorem classifyAll_provingArguments (text : String) (maxPasses : Int) (fullLog : Bool) :
    classifyAll (provingArguments text maxPasses fullLog) =
      some ([.option .clauses (some text), .option .maxPasses (some (toString maxPasses)),
        .option .quiet none] ++ if fullLog then [.option .fullLog none] else []) := by
  have hne : ∀ name value : String, name ++ "=" ++ value ≠ "--" := by
    intro name value e
    have hmem : '=' ∈ (name ++ "=" ++ value).toList := by simp
    rw [e] at hmem
    exact absurd hmem (by decide)
  have hclauses : classify ("--clauses" ++ "=" ++ text) = some (.option .clauses (some text)) :=
    classify_assigned rfl (by decide) rfl text
  have hpasses : classify ("--max-passes" ++ "=" ++ toString maxPasses) =
      some (.option .maxPasses (some (toString maxPasses))) :=
    classify_assigned rfl (by decide) rfl _
  have hflags : classifyAll ("--quiet" :: if fullLog then ["--full-log"] else []) =
      some (.option .quiet none :: if fullLog then [.option .fullLog none] else []) := by
    cases fullLog <;> decide +kernel
  have hargs : provingArguments text maxPasses fullLog =
      ("--clauses" ++ "=" ++ text) :: ("--max-passes" ++ "=" ++ toString maxPasses) :: "--quiet" ::
        if fullLog then ["--full-log"] else [] := rfl
  rw [hargs, classifyAll_cons (hne _ _) hclauses, classifyAll_cons (hne _ _) hpasses, hflags]
  rfl

theorem take_clauses {text : String} (h : text ≠ "--") :
    ({} : Taken).take .clauses text =
      .ok { options := { clauses := text }, source := some .clauses } := by
  rw [Taken.take, if_neg h]
  rfl

theorem take_maxPasses (t : Taken) (n : Int) :
    t.take .maxPasses (toString n) =
      .ok { t with options := { t.options with maxPasses := n } } := by
  have hread := Text.readInt?_toString n
  have hdigits : toString n ≠ "--" := by
    intro e
    have hdashes : Text.readInt? "--".toList = none := by decide
    rw [e, hdashes] at hread
    cases hread
  rw [Taken.take, if_neg hdigits, Options.setValue, hread]
  rfl

/-- Every text but two bare dashes is handed over as it is. -/
theorem parse_provingArguments {text : String} (h : text ≠ "--") (maxPasses : Int)
    (fullLog : Bool) :
    parse (provingArguments text maxPasses fullLog) =
      .ok (.run (provingOptions text maxPasses fullLog)) := by
  rw [parse, classifyAll_provingArguments]
  cases fullLog with
  | false =>
      simp only [takeAll, List.cons_append, take_clauses h, take_maxPasses, bind, Except.bind]
      rfl
  | true =>
      simp only [takeAll, List.cons_append, take_clauses h, take_maxPasses, bind, Except.bind]
      rfl

/-- The clauses that are proved. An empty text counts as not given, and a sample stands in. -/
def takenText (text : String) : String := if text = "" then Sample.socrates.clauses else text

section

variable {m : Type → Type} [Monad m] [Host m] (text : String) (maxPasses : Int) (fullLog : Bool)

theorem clauseText_provingOptions :
    (clauseText (provingOptions text maxPasses fullLog) : Program m String) =
      pure (takenText text) := by
  unfold clauseText takenText
  by_cases h : text = ""
  · subst h
    rfl
  · have hempty : text.isEmpty = false := by simpa using h
    rw [if_neg h]
    simp [provingOptions, hempty]

/-- What is left of the program: it needs no key, prints no trace and writes no files. -/
theorem runOptions_provingOptions [LawfulMonad m] :
    (runOptions (provingOptions text maxPasses fullLog) : Program m Unit) = (do
      let start ← initialState (takenText text)
      let s := (start.run (provingOptions text maxPasses fullLog).limit).state
      let report ← orFail ((s.report fullLog).mapError .report)
      printLine ""
      printLine report) := by
  have hkey : (requireKey (provingOptions text maxPasses fullLog) : Program m Unit) = pure () := rfl
  rw [runOptions, hkey, clauseText_provingOptions, pure_bind, pure_bind]
  simp [provingOptions]

end

/-- The answer that a text asks for. If it cannot be read, that is a complaint and nothing else; if
it can be read, it is the report of the attempt to prove it, below an empty line. -/
structure Answers (text : String) (fullLog : Bool) (limit : Option Int) (w : Scratch)
    (r : Outcome × Scratch) : Prop where
  unreadable : ∀ e, parseClauses text = .error e →
    r = (.exit 2, { w with stderr := w.stderr ++ ("Parse error: " ++ e.message ++ "\n") })
  readable : ∀ clauses, parseClauses text = .ok clauses →
    ∃ attempt, prove text fullLog limit false = .ok attempt ∧
      r = (.exit 0, { w with stdout := w.stdout ++ ("\n" ++ attempt.report ++ "\n") })

section

variable {args : List String} {text : String} {maxPasses : Int} {fullLog : Bool}

theorem answers_execute
    (hargs : parse args = .ok (.run (provingOptions text maxPasses fullLog))) (w : Scratch) :
    Answers (takenText text) fullLog (provingOptions text maxPasses fullLog).limit w
      ((execute args : StateM Scratch Outcome).run w) := by
  constructor
  · intro e he
    rw [execute, hargs]
    dsimp only
    rw [runOptions_provingOptions, initialState, he]
    rfl
  · intro clauses hclauses
    have hgrown := (ProofState.grownFrom_ofClauses clauses).run
      (provingOptions text maxPasses fullLog).limit
    obtain ⟨report, hreport⟩ := hgrown.exists_report fullLog
    obtain ⟨attempt, hattempt, rfl⟩ := prove_of_report hclauses hreport false
    refine ⟨attempt, hattempt, ?_⟩
    rw [execute, hargs]
    dsimp only
    rw [runOptions_provingOptions, initialState, hclauses]
    dsimp only
    rw [pure_bind, hreport]
    have hlines : w.stdout ++ ("\n" ++ attempt.report ++ "\n") =
        w.stdout ++ ("" ++ "\n") ++ (attempt.report ++ "\n") := by
      simp [String.append_assoc]
    rw [hlines]
    rfl

theorem exists_parseClauses_socrates :
    ∃ clauses, parseClauses Sample.socrates.clauses = .ok clauses := by
  have hsome : (parseClauses Sample.socrates.clauses).toOption.isSome = true := by decide +kernel
  cases h : parseClauses Sample.socrates.clauses with
  | error e => simp [h, Except.toOption] at hsome
  | ok clauses => exact ⟨clauses, rfl⟩

/-- Reading would refuse the empty text, but it is not read: the run succeeds. -/
theorem not_answers_execute_empty
    (hargs : parse args = .ok (.run (provingOptions "" maxPasses fullLog))) (w : Scratch) :
    ¬Answers "" fullLog (provingOptions "" maxPasses fullLog).limit w
      ((execute args : StateM Scratch Outcome).run w) := by
  intro h
  obtain ⟨clauses, hclauses⟩ := exists_parseClauses_socrates
  obtain ⟨attempt, -, hsample⟩ := (answers_execute hargs w).readable clauses hclauses
  have hrefused := h.unreadable ⟨.noClauses, ""⟩ rfl
  have hstatus : Outcome.exit 0 = .exit 2 := congrArg Prod.fst (hsample.symm.trans hrefused)
  exact absurd hstatus (by decide)

end

end CommandLine

open CommandLine

/-- A text and a limit are handed over as they are written, two bare dashes apart. A command line
that hands them over proves the text, unless it is empty: then it proves a sample. So the command
line answers for the text that was given exactly if that text is not empty. -/
theorem command_line_answers_iff (text : String) (maxPasses : Int) (fullLog : Bool) :
    (text ≠ "--" →
      parse (provingArguments text maxPasses fullLog) =
        .ok (.run (provingOptions text maxPasses fullLog))) ∧
    ∀ args, parse args = .ok (.run (provingOptions text maxPasses fullLog)) →
      ∀ w : Scratch,
        let limit := if maxPasses = 0 then none else some maxPasses
        let r := (execute args : StateM Scratch Outcome).run w
        Answers (takenText text) fullLog limit w r ∧
          (Answers text fullLog limit w r ↔ text ≠ "") := by
  refine ⟨fun h => parse_provingArguments h maxPasses fullLog, fun args hargs w => ?_⟩
  refine ⟨answers_execute hargs w, fun h hempty => ?_, fun hne => ?_⟩
  · subst hempty
    exact not_answers_execute_empty hargs w h
  · have htaken : takenText text = text := if_neg hne
    exact htaken ▸ answers_execute hargs w

/-- A line without a limit on the passes that asks for the full derivation, and one whose text
cannot be read. -/
theorem command_line_answers_iff_readable_or_not :
    let args := provingArguments "P(a), ¬P(x)" 0 true
    let broken := provingArguments "P(a" (-1) false
    Answers "P(a), ¬P(x)" true none {} ((execute args : StateM Scratch Outcome).run {}) ∧
      Answers "P(a" false (some (-1)) {} ((execute broken : StateM Scratch Outcome).run {}) := by
  intro args broken
  obtain ⟨hargs, hanswers⟩ := command_line_answers_iff "P(a), ¬P(x)" 0 true
  obtain ⟨hbroken, hcomplains⟩ := command_line_answers_iff "P(a" (-1) false
  exact ⟨(hanswers args (hargs (by decide)) {}).2.2 (by decide),
    (hcomplains broken (hbroken (by decide)) {}).2.2 (by decide)⟩

/-- The empty text cannot be read, yet the command line with it succeeds and reports on a sample. -/
theorem command_line_proves_sample_for_empty_text :
    parseClauses "" = .error ⟨.noClauses, ""⟩ ∧
      ∃ attempt, prove Sample.socrates.clauses false none false = .ok attempt ∧
        (execute ["--clauses=", "--max-passes=0", "--quiet"] : StateM Scratch Outcome).run {} =
          (.exit 0, { stdout := "\n" ++ attempt.report ++ "\n" }) := by
  have hargs : parse ["--clauses=", "--max-passes=0", "--quiet"] =
      .ok (.run (provingOptions "" 0 false)) := by
    have hspelled : provingArguments "" 0 false = ["--clauses=", "--max-passes=0", "--quiet"] := by
      decide +kernel
    rw [← hspelled]
    exact parse_provingArguments (by decide) 0 false
  obtain ⟨clauses, hclauses⟩ := exists_parseClauses_socrates
  obtain ⟨attempt, hattempt, hrun⟩ := (answers_execute hargs {}).readable clauses hclauses
  refine ⟨rfl, attempt, hattempt, hrun.trans ?_⟩
  rw [String.empty_append]

end Resolution
