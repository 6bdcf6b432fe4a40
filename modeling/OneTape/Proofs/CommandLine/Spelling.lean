import OneTape.CommandLine.Arguments

namespace OneTape.CommandLine

/-- What holds of every request to run something. -/
structure Arguments.Sound (a : Arguments) : Prop where
  path_ne : a.program ≠ some ""
  limit_le : ∀ n ∈ a.stepLimit, n ≤ maxStepLimit

/-- What holds of a request exactly if some arguments make it. -/
structure Arguments.Readable (a : Arguments) : Prop extends a.Sound where
  given : a ≠ {}
  oneMachine : (a.program.isSome && a.builtin.isSome) = false

namespace Arguments

def joined (s : Setting) (value : String) : String := s.name ++ "=" ++ value

def spelledSettings (a : Arguments) : List String :=
  (a.program.map (joined .program)).toList ++ (a.builtin.map (joined .builtin)).toList ++
    ((a.stepLimit.map toString).map (joined .stepLimit)).toList

def spelledFlags (a : Arguments) : List String :=
  ([.trace, .json, .analyze, .list].filter fun f : Flag => f.isSet a).map Flag.name

def spelled (a : Arguments) : List String :=
  a.spelledSettings ++ a.spelledFlags ++ "--" :: a.words

end Arguments

variable {a b : Arguments} {value : String}

theorem number?_toString {n : Nat} (le : n ≤ maxStepLimit) : number? (toString n) = some n := by
  have digit : ∀ c ∈ Nat.toDigits 10 n, c.isDigit = true :=
    fun c member => Nat.isDigit_of_mem_toDigits (by decide) (by decide) member
  have unsigned (rest : List Char) : Nat.toDigits 10 n ≠ '+' :: rest := by
    intro signed
    exact absurd (digit '+' (by simp [signed])) (by decide)
  have value : (Nat.toDigits 10 n).foldl (fun n c => 10 * n + (c.toNat - '0'.toNat)) 0 = n :=
    Nat.ofDigitChars_toDigits (by decide) (by decide)
  have all : (Nat.toDigits 10 n).all Char.isDigit = true := List.all_eq_true.2 digit
  have given : (Nat.toDigits 10 n).isEmpty = false := by simp
  simp only [number?, Nat.toString_eq_repr, Nat.toList_repr, value, all, given]
  simp [le]

theorem number?_le {text : String} {n : Nat} (read : number? text = some n) :
    n ≤ maxStepLimit := by
  simp only [number?, Option.ite_none_left_eq_some, Option.ite_none_right_eq_some,
    Option.some.injEq] at read
  obtain ⟨-, le, rfl⟩ := read
  exact le

/-! ## Reading what is spelled out -/

namespace Reading

theorem read_joined (s : Setting) :
    (free a).read (Arguments.joined s value) = (s.set a value).map .free := by
  cases s <;> simp [Arguments.joined, read, readLong, Setting.name, Switch.ofLong?]

theorem read_flag (f : Flag) : (free a).read f.name = (f.set a).map .free := by
  cases f <;> rfl

theorem read_words (ws : List String) :
    ws.foldlM read (words a) = .ok (words { a with words := a.words ++ ws }) := by
  induction ws generalizing a with
  | nil => simp [pure, Except.pure]
  | cons w ws ih =>
    rw [List.foldlM_cons]
    refine (ih (a := { a with words := a.words ++ [w] })).trans ?_
    rw [List.append_assoc, List.singleton_append]

end Reading

theorem foldlM_joined (s : Setting) (given : Option String) (unset : given = none → a = b)
    (set : ∀ v ∈ given, s.set a v = .ok b) :
    (given.map (Arguments.joined s)).toList.foldlM Reading.read (.free a) = .ok (.free b) := by
  cases given with
  | none =>
    rw [unset rfl]
    rfl
  | some v =>
    rw [Option.map_some, Option.toList_some, List.foldlM_cons, Reading.read_joined, set v rfl]
    rfl

theorem foldlM_spelledSettings (sound : a.Sound) :
    a.spelledSettings.foldlM Reading.read (.free {}) =
      .ok (.free { program := a.program, builtin := a.builtin, stepLimit := a.stepLimit }) := by
  have program := foldlM_joined (a := {}) (b := { program := a.program }) .program a.program
    (fun none => by rw [none]) fun path given => by
      have nonempty : path.isEmpty = false := by
        have := sound.path_ne
        simp_all
      simp [Setting.set, Setting.isSet, nonempty, Option.mem_def.1 given]
  have builtin := foldlM_joined (a := { program := a.program })
    (b := { program := a.program, builtin := a.builtin }) .builtin a.builtin
    (fun none => by rw [none]) fun name given => by
      simp [Setting.set, Setting.isSet, Option.mem_def.1 given]
  have stepLimit := foldlM_joined (a := { program := a.program, builtin := a.builtin })
    (b := { program := a.program, builtin := a.builtin, stepLimit := a.stepLimit })
    .stepLimit (a.stepLimit.map toString) (fun none => by rw [Option.map_eq_none_iff.1 none])
    fun text given => by
      obtain ⟨n, limit, rfl⟩ := Option.map_eq_some_iff.1 given
      simp only [Setting.set, Setting.isSet, number?_toString (sound.limit_le n limit), limit]
      rfl
  rw [Arguments.spelledSettings, List.foldlM_append, List.foldlM_append, program]
  exact (congrArg (· >>= _) builtin).trans stepLimit

theorem foldlM_spelledFlags (unset : b.trace = false ∧ b.json = false ∧ b.analyze = false ∧
    b.list = false) : a.spelledFlags.foldlM Reading.read (.free b) =
      .ok (.free { b with
        trace := a.trace, json := a.json, analyze := a.analyze, list := a.list }) := by
  obtain ⟨program, builtin, words, stepLimit, trace, json, analyze, list⟩ := b
  obtain ⟨rfl, rfl, rfl, rfl⟩ := unset
  cases trace : a.trace <;> cases json : a.json <;> cases analyze : a.analyze <;>
    cases list : a.list <;>
    simp [Arguments.spelledFlags, Flag.isSet, trace, json, analyze, list, Reading.read_flag,
      Flag.set, Except.map, pure, Except.pure, bind, Except.bind]

theorem parse_spelled (readable : a.Readable) : parse a.spelled = .ok (.run a) := by
  have options := foldlM_spelledSettings readable.toSound
  have flags := foldlM_spelledFlags (a := a)
    (b := { program := a.program, builtin := a.builtin, stepLimit := a.stepLimit })
    ⟨rfl, rfl, rfl, rfl⟩
  have words := Reading.read_words (a := { a with words := [] }) a.words
  have all : a.spelled.foldlM Reading.read (.free {}) = .ok (.words a) := by
    rw [Arguments.spelled, List.foldlM_append, List.foldlM_append, options]
    refine (congrArg (· >>= _) flags).trans ?_
    exact words
  rw [parse, all]
  show (Reading.words a).finish = _
  rw [Reading.finish, if_neg readable.given, if_neg (by simp [readable.oneMachine])]

/-! ## What is read is sound -/

theorem Flag.sound_set {f : Flag} (sound : a.Sound) (made : f.set a = .ok b) : b.Sound := by
  unfold Flag.set at made
  split at made
  · cases made
  · obtain rfl := Except.ok.inj made
    cases f <;> exact ⟨sound.path_ne, sound.limit_le⟩

theorem Setting.sound_set {s : Setting} (sound : a.Sound) (made : s.set a value = .ok b) :
    b.Sound := by
  unfold Setting.set at made
  split at made
  · cases made
  cases s with
  | program =>
    dsimp only at made
    split at made
    · cases made
    · obtain rfl := Except.ok.inj made
      refine ⟨fun empty => ?_, sound.limit_le⟩
      have : value = "" := Option.some.inj empty
      simp_all
  | builtin =>
    obtain rfl := Except.ok.inj made
    exact ⟨sound.path_ne, sound.limit_le⟩
  | stepLimit =>
    dsimp only at made
    split at made
    · cases made
    · rename_i n read
      obtain rfl := Except.ok.inj made
      refine ⟨sound.path_ne, ?_⟩
      rintro _ ⟨⟩
      exact number?_le read

namespace Reading

variable {reading next : Reading}

def Sound : Reading → Prop
  | free a | awaiting _ a | words a => a.Sound
  | done r => ∀ a, r ≠ .run a

theorem sound_of_map {made : Except UsageError Arguments} (each : ∀ b, made = .ok b → b.Sound)
    (read : made.map free = .ok next) : next.Sound := by
  cases made with
  | error e => cases read
  | ok b =>
    obtain rfl := Except.ok.inj read
    exact each b rfl

theorem sound_readShort {names : List Char} (sound : a.Sound)
    (read : readShort a names = .ok next) : next.Sound := by
  fun_induction readShort a names with
  | case1 a =>
    obtain rfl := Except.ok.inj read
    exact sound
  | case2 => cases read
  | case3 | case4 =>
    obtain rfl := Except.ok.inj read
    exact fun a => Request.noConfusion
  | case5 => cases read
  | case6 a c rest f known b made ih => exact ih (f.sound_set sound made) read
  | case7 =>
    obtain rfl := Except.ok.inj read
    exact sound
  | case8 | case9 => exact sound_of_map (fun b made => Setting.sound_set sound made) read

theorem sound_readLong {text : List Char} (sound : a.Sound) (read : readLong a text = .ok next) :
    next.Sound := by
  unfold readLong at read
  dsimp only at read
  split at read
  · cases read
  · obtain rfl := Except.ok.inj read
    exact sound
  · exact sound_of_map (fun b made => Setting.sound_set sound made) read
  · cases read
  · exact sound_of_map (fun b made => Flag.sound_set sound made) read
  · obtain rfl := Except.ok.inj read
    exact fun a => Request.noConfusion
  · obtain rfl := Except.ok.inj read
    exact fun a => Request.noConfusion

theorem sound_read {argument : String} (sound : reading.Sound)
    (read : reading.read argument = .ok next) : next.Sound := by
  unfold Reading.read at read
  split at read
  · obtain rfl := Except.ok.inj read
    exact sound
  · obtain rfl := Except.ok.inj read
    exact ⟨sound.path_ne, sound.limit_le⟩
  · cases read
  · exact sound_of_map (fun b made => Setting.sound_set sound made) read
  · obtain rfl := Except.ok.inj read
    exact sound
  · exact sound_readLong sound read
  · exact sound_readShort sound read
  · obtain rfl := Except.ok.inj read
    exact ⟨sound.path_ne, sound.limit_le⟩

theorem sound_foldlM {arguments : List String} (sound : reading.Sound)
    (read : arguments.foldlM Reading.read reading = .ok next) : next.Sound := by
  induction arguments generalizing reading with
  | nil =>
    obtain rfl := Except.ok.inj read
    exact sound
  | cons argument arguments ih =>
    rw [List.foldlM_cons] at read
    cases first : reading.read argument with
    | error e =>
      rw [first] at read
      cases read
    | ok between =>
      rw [first] at read
      exact ih (sound_read sound first) read

end Reading

theorem readable_of_parse {arguments : List String} (parsed : parse arguments = .ok (.run a)) :
    a.Readable := by
  unfold parse at parsed
  cases read : arguments.foldlM Reading.read (.free {}) with
  | error e =>
    rw [read] at parsed
    cases parsed
  | ok reading =>
    rw [read] at parsed
    have start : (Reading.free {}).Sound := (⟨by simp, by simp⟩ : ({} : Arguments).Sound)
    have sound : reading.Sound := Reading.sound_foldlM start read
    change reading.finish = _ at parsed
    unfold Reading.finish at parsed
    split at parsed
    · exact absurd (Except.ok.inj parsed) (sound a)
    · cases parsed
    all_goals
      split at parsed
      · cases parsed
      · split at parsed
        · cases parsed
        · obtain rfl := Request.run.inj (Except.ok.inj parsed)
          exact ⟨sound, ‹_›, Bool.eq_false_iff.2 ‹_›⟩

/-- The arguments of a command line can make just the readable requests. -/
theorem exists_parse_iff : (∃ arguments, parse arguments = .ok (.run a)) ↔ a.Readable :=
  ⟨fun ⟨_, parsed⟩ => readable_of_parse parsed, fun readable => ⟨_, parse_spelled readable⟩⟩

end OneTape.CommandLine
