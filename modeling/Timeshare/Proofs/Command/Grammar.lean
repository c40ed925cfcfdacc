import Mathlib
import Timeshare.Proofs.Command.Filling
import Timeshare.Proofs.Text.Words

/-!
# The grammar of commands

`Denotes` says which words are which command. A line is read by this grammar and by nothing else:
`reading_of_parse` says what every line comes to, from its words, which are its longest runs of
characters that are not blank. The words behind the arguments of a command play no part.
-/

namespace Timeshare

namespace Verb

/-- The first word of a command. -/
def word : Verb → String
  | submit => "sub"
  | list => "plist"
  | inspect => "show"
  | kill => "kill"
  | run => "run"
  | runAll => "runall"
  | exit => "exit"

theorem ofWord?_word (verb : Verb) : ofWord? verb.word = some verb := by cases verb <;> rfl

theorem word_injective {a b : Verb} (h : a.word = b.word) : a = b :=
  Option.some.inj ((ofWord?_word a).symm.trans ((congrArg ofWord? h).trans (ofWord?_word b)))

theorem ofWord?_eq_some_iff {name : String} {verb : Verb} :
    ofWord? name = some verb ↔ name = verb.word := by
  constructor
  · intro h
    unfold ofWord? at h
    split at h <;> cases h <;> rfl
  · rintro rfl
    exact ofWord?_word verb

/-- Only the last argument of a verb is no integer. -/
theorem ne_word_of_mem_dropLast (verb : Verb) : ∀ a ∈ verb.arguments.dropLast, a ≠ .word := by
  cases verb <;> decide

end Verb

namespace Command

/-- The words of a command, its arguments, and any words behind them. -/
inductive Denotes : List String → Command → Prop
  | submit {u p m file : String} {user priority budget : Int} {rest : List String} :
      Integer.Written 32 u user → Integer.Written 64 p priority → Integer.Written 64 m budget →
        (file.toList.head? = some '-' → file = "-") →
          Denotes ("sub" :: u :: p :: m :: file :: rest) (.submit user priority budget file)
  | list {rest : List String} : Denotes ("plist" :: rest) .list
  | inspect {pid : String} {id : Int} {rest : List String} :
      Integer.Written 64 pid id → Denotes ("show" :: pid :: rest) (.inspect id)
  | kill {pid : String} {id : Int} {rest : List String} :
      Integer.Written 64 pid id → Denotes ("kill" :: pid :: rest) (.kill id)
  | run {rest : List String} : Denotes ("run" :: rest) .run
  | runAll {rest : List String} : Denotes ("runall" :: rest) .runAll
  | exit {rest : List String} : Denotes ("exit" :: rest) .exit

variable {verb : Verb} {rest : List String} {command : Command}

/-- Words that fill the arguments of a verb make a command. -/
theorem exists_denotes {values : List Value} (filled : Fill verb.arguments rest values) :
    ∃ command, ofValues verb values = .ok command ∧ Denotes (verb.word :: rest) command := by
  cases verb with
  | submit =>
    rcases filled with _ | ⟨⟨user⟩, _ | ⟨⟨priority⟩, _ | ⟨⟨budget⟩, _ | ⟨file, ⟨⟩⟩⟩⟩⟩
    cases file with
    | word file => exact ⟨_, rfl, .submit user priority budget file⟩
  | inspect =>
    rcases filled with _ | ⟨⟨id⟩, ⟨⟩⟩
    exact ⟨_, rfl, .inspect id⟩
  | kill =>
    rcases filled with _ | ⟨⟨id⟩, ⟨⟩⟩
    exact ⟨_, rfl, .kill id⟩
  | list =>
    cases filled
    exact ⟨_, rfl, .list⟩
  | run =>
    cases filled
    exact ⟨_, rfl, .run⟩
  | runAll =>
    cases filled
    exact ⟨_, rfl, .runAll⟩
  | exit =>
    cases filled
    exact ⟨_, rfl, .exit⟩

/-- The words of a command are the word of its verb and words that fill the arguments. -/
theorem Denotes.exists_fill {words : List String} (h : Denotes words command) :
    ∃ verb rest values, words = Verb.word verb :: rest ∧ Fill verb.arguments rest values ∧
      ofValues verb values = .ok command := by
  cases h with
  | submit user priority budget file =>
    exact ⟨.submit, _, _, rfl, .next (.integer user) (.next (.integer priority)
      (.next (.integer budget) (.next (.word file) (.done _)))), rfl⟩
  | list => exact ⟨.list, _, _, rfl, .done _, rfl⟩
  | inspect id => exact ⟨.inspect, _, _, rfl, .next (.integer id) (.done _), rfl⟩
  | kill id => exact ⟨.kill, _, _, rfl, .next (.integer id) (.done _), rfl⟩
  | run => exact ⟨.run, _, _, rfl, .done _, rfl⟩
  | runAll => exact ⟨.runAll, _, _, rfl, .done _, rfl⟩
  | exit => exact ⟨.exit, _, _, rfl, .done _, rfl⟩

theorem ofWords_eq (verb : Verb) (rest : List String) :
    ofWords verb rest = (Filling.fill verb { due := verb.arguments } rest) >>= ofValues verb := by
  simp only [ofWords, Filling.fill, bind_assoc]

theorem fill_arguments_iff {values : List Value} :
    Filling.fill verb { due := verb.arguments } rest = .ok values ↔
      Fill verb.arguments rest values := by
  rw [Filling.fill_eq_ok_iff rfl]
  constructor
  · rintro ⟨past, further, ⟨⟩, filled, rfl⟩
    exact filled
  · intro filled
    exact ⟨[], values, rfl, filled, rfl⟩

/-- Words behind a verb are accepted as the command that they denote. -/
theorem ofWords_eq_ok_iff :
    ofWords verb rest = .ok command ↔ Denotes (verb.word :: rest) command := by
  rw [ofWords_eq]
  constructor
  · intro made
    cases taken : Filling.fill verb { due := verb.arguments } rest with
    | error error =>
      rw [taken] at made
      cases made
    | ok values =>
      rw [taken] at made
      obtain ⟨other, same, denotes⟩ := exists_denotes (fill_arguments_iff.mp taken)
      obtain rfl : other = command := Except.ok.inj (same.symm.trans made)
      exact denotes
  · intro denotes
    obtain ⟨other, others, values, words, filled, made⟩ := denotes.exists_fill
    obtain ⟨name, rfl⟩ := List.cons.inj words
    obtain rfl := Verb.word_injective name
    rw [fill_arguments_iff.mpr filled]
    exact made

/-- The words are refused if and only if they do not fill the arguments, and for the same reason. -/
theorem ofWords_eq_error_iff {error : CommandError} : ofWords verb rest = .error error ↔
    Filling.fill verb { due := verb.arguments } rest = .error error := by
  rw [ofWords_eq]
  cases taken : Filling.fill verb { due := verb.arguments } rest with
  | error bad => simp [Bind.bind, Except.bind]
  | ok values =>
    obtain ⟨command, made, -⟩ := exists_denotes (fill_arguments_iff.mp taken)
    constructor
    · intro failed
      cases made.symm.trans failed
    · nofun

theorem ofWords_take (verb : Verb) (rest : List String) :
    ofWords verb (rest.take verb.arguments.length) = ofWords verb rest := by
  rw [ofWords, ofWords, List.take_take, Nat.min_self]

/-! ## Lines -/

/-- The words that name verbs. -/
def names : List String := ["sub", "plist", "show", "kill", "run", "runall", "exit"]

theorem word_mem_names (verb : Verb) : verb.word ∈ names := by cases verb <;> decide

theorem ofWord?_eq_none {name : String} (h : name ∉ names) : Verb.ofWord? name = none := by
  cases found : Verb.ofWord? name with
  | none => rfl
  | some verb =>
    rw [Verb.ofWord?_eq_some_iff] at found
    subst found
    exact absurd (word_mem_names verb) h

theorem exists_word_of_mem_names {name : String} (h : name ∈ names) :
    ∃ verb, name = Verb.word verb := by
  simp only [names, List.mem_cons, List.not_mem_nil, or_false] at h
  rcases h with rfl | rfl | rfl | rfl | rfl | rfl | rfl
  · exact ⟨.submit, rfl⟩
  · exact ⟨.list, rfl⟩
  · exact ⟨.inspect, rfl⟩
  · exact ⟨.kill, rfl⟩
  · exact ⟨.run, rfl⟩
  · exact ⟨.runAll, rfl⟩
  · exact ⟨.exit, rfl⟩

/-- What a line with certain words comes to. -/
structure Reading (words : List String) (answer : Except CommandError (Option Command)) : Prop where
  blank : answer = .ok none ↔ words = []
  unknown : ∀ name, answer = .error (.unknownCommand name) ↔
    words.head? = some name ∧ name ∉ names
  accepted : ∀ command, answer = .ok (some command) ↔ Denotes words command
  /-- A command that is named but not denoted is refused, in two ways. -/
  refused : ∀ verb rest, words = Verb.word verb :: rest → (∀ command, ¬ Denotes words command) →
    answer = .error .badArguments ∨ answer = .error (.usage verb)
  /-- The usage is that of the command, which some word with a dash led astray, or which has too few
  words and no bad one among them. -/
  usage : ∀ verb, answer = .error (.usage verb) → ∃ rest, words = Verb.word verb :: rest ∧
    ((∃ x ∈ verb.arguments.zip rest, x.2.toList.head? = some '-') ∨
      rest.length < verb.arguments.length ∧
        ∀ bits word, (.integer bits, word) ∈ verb.arguments.zip rest →
          ∃ n, Integer.Written bits word n)
  /-- A bad argument is a word that is no integer although its place is that of one. -/
  bad : answer = .error .badArguments → ∃ verb rest bits word, words = Verb.word verb :: rest ∧
    (.integer bits, word) ∈ verb.arguments.zip rest ∧ ∀ n, ¬ Integer.Written bits word n
  /-- Words behind the arguments change nothing. -/
  surplus : ∀ verb other others, words.head? = some (Verb.word verb) → Splits other others →
    others.take (1 + verb.arguments.length) = words.take (1 + verb.arguments.length) →
      parse other = answer

theorem parse_of_words_eq_cons {line : String} (h : words line = verb.word :: rest) :
    parse line = (ofWords verb rest).map some := by
  rw [parse, h]
  simp [Verb.ofWord?_word]

/-- The words of a line denote the command that it is read as. -/
theorem denotes_of_parse {line : String} (parsed : parse line = .ok (some command)) :
    Denotes (words line) command := by
  cases split : words line with
  | nil => simp [parse, split] at parsed
  | cons name rest =>
    cases known : Verb.ofWord? name with
    | none => simp [parse, split, known] at parsed
    | some verb =>
      obtain rfl := Verb.ofWord?_eq_some_iff.mp known
      rw [parse_of_words_eq_cons split] at parsed
      cases made : ofWords verb rest with
      | error error =>
        rw [made] at parsed
        cases parsed
      | ok other =>
        rw [made] at parsed
        cases parsed
        exact ofWords_eq_ok_iff.mp made

theorem reading_nil : Reading [] (.ok none) := by
  constructor
  case blank => simp
  case unknown => simp
  case accepted =>
    intro command
    constructor <;> nofun
  case refused => nofun
  case usage => nofun
  case bad => nofun
  case surplus => nofun

theorem reading_unknown {name : String} (h : name ∉ names) :
    Reading (name :: rest) (.error (.unknownCommand name)) := by
  have other : ∀ verb further, name :: rest ≠ Verb.word verb :: further := by
    intro verb further same
    rw [(List.cons.inj same).1] at h
    exact h (word_mem_names verb)
  constructor
  case blank => simp
  case unknown => simp +contextual [h]
  case accepted =>
    intro command
    constructor
    · nofun
    · intro denotes
      obtain ⟨verb, further, values, same, -⟩ := denotes.exists_fill
      exact absurd same (other verb further)
  case refused => exact fun verb further same => absurd same (other verb further)
  case usage => nofun
  case bad => nofun
  case surplus =>
    intro verb _ _ head
    exact absurd (congrArg (· :: rest) (Option.some.inj head)) (other verb rest)

/-- Behind a verb it is the arguments that decide. -/
theorem reading_verb (verb : Verb) (rest : List String) :
    Reading (verb.word :: rest) ((ofWords verb rest).map some) := by
  have own : ∀ {other further}, verb.word :: rest = Verb.word other :: further →
      other = verb ∧ further = rest := by
    intro other further same
    obtain ⟨name, rfl⟩ := List.cons.inj same
    exact ⟨Verb.word_injective name.symm, rfl⟩
  have failed : ∀ {error}, (ofWords verb rest).map some = .error error →
      Filling.fill verb { due := verb.arguments } rest = .error error := by
    intro error h
    apply ofWords_eq_error_iff.mp
    cases made : ofWords verb rest with
    | ok command => simp [made, Except.map] at h
    | error bad => simpa [made, Except.map] using h
  constructor
  case blank =>
    cases ofWords verb rest <;> simp [Except.map]
  case unknown =>
    intro name
    constructor
    · intro h
      obtain bad | usage := Filling.fill_eq_error (failed h)
      · cases bad
      · cases usage
    · rintro ⟨⟨⟩, strange⟩
      exact absurd (word_mem_names verb) strange
  case accepted =>
    intro command
    rw [← ofWords_eq_ok_iff]
    cases ofWords verb rest <;> simp [Except.map]
  case refused =>
    intro other further same nothing
    obtain ⟨rfl, rfl⟩ := own same
    cases made : ofWords other further with
    | ok command => exact absurd (ofWords_eq_ok_iff.mp made) (nothing command)
    | error error =>
      obtain rfl | rfl := Filling.fill_eq_error (ofWords_eq_error_iff.mp made)
      · exact .inl rfl
      · exact .inr rfl
  case usage =>
    intro other h
    obtain bad | same := Filling.fill_eq_error (failed h)
    · cases bad
    · cases same
      obtain dash | ⟨short, -, integers⟩ := Filling.usage_of_fill rfl (failed h)
      · exact ⟨rest, rfl, .inl dash⟩
      · exact ⟨rest, rfl, .inr ⟨short, integers⟩⟩
  case bad =>
    intro h
    obtain settled | ⟨bits, word, place, bad⟩ :=
      Filling.badArguments_of_fill rfl verb.ne_word_of_mem_dropLast (failed h)
    · cases settled
    · exact ⟨verb, rest, bits, word, rfl, place, bad⟩
  case surplus =>
    intro other line others head split same
    obtain rfl : verb = other := Verb.word_injective (Option.some.inj head)
    rw [splits_iff] at split
    subst split
    cases spelled : words line with
    | nil => simp [spelled, Nat.add_comm 1] at same
    | cons name further =>
      rw [spelled, Nat.add_comm, List.take_succ_cons, List.take_succ_cons, List.cons.injEq] at same
      obtain ⟨rfl, same⟩ := same
      rw [parse_of_words_eq_cons spelled, ← ofWords_take verb further, same, ofWords_take]

/-- Every line has words of its own, which decide what it comes to. -/
theorem reading_of_parse (line : String) :
    ∃ ws, (∀ others, Splits line others ↔ others = ws) ∧ Reading ws (parse line) := by
  refine ⟨words line, fun others => splits_iff, ?_⟩
  cases spelled : words line with
  | nil =>
    rw [parse, spelled]
    exact reading_nil
  | cons name rest =>
    by_cases known : name ∈ names
    · obtain ⟨verb, rfl⟩ := exists_word_of_mem_names known
      rw [parse_of_words_eq_cons spelled]
      exact reading_verb verb rest
    · rw [parse, spelled]
      simp only [ofWord?_eq_none known]
      exact reading_unknown known

/-- A flag right behind a bad value is noticed first, and the dashes that make values of the words
behind them are in the way of an argument. -/
example : parse "sub x -y" = .error (.usage .submit) ∧ parse "sub x 1 -y" = .error .badArguments ∧
    parse "kill -- 1" = .error (.usage .kill) := by decide

end Command

end Timeshare
