import RaceSteward.Proofs.Console.Tokens

/-!
# The grammar of the console

What a line means is a matter of its first three words, unless it is chat: then it is what it is,
character by character.

* `Command.parse_eq_iff`: a line is read as the one thing that its words mean.
* `Command.parse_follows_grammar`: the same in full, and that lines with the same first three words are
  the same command, however they are spaced and whatever follows.
-/

namespace RaceSteward.Console

/-! ## What words mean -/

/-- The order that the word behind `!sw` stands for, if there is one. -/
inductive RaceOrder.Says : Option String → RaceOrder → Prop where
  | missing : Says none missing
  | start : Says (some "st") start
  | readyStart : Says (some "lst") readyStart
  | finish : Says (some "fin") finish
  | stop : Says (some "stop") stop
  | help {word : String} (hword : word ∉ ["st", "lst", "fin", "stop"]) : Says (some word) help

/-- The order that the two words behind `/mmo` stand for, if they are there. -/
inductive ModerationOrder.Says : Option String → Option String → ModerationOrder → Prop where
  | missing (word : Option String) : Says none word missing
  | cheatOn : Says (some "cheat") (some "on") (cheat (some true))
  | cheatOff : Says (some "cheat") (some "off") (cheat (some false))
  | cheat {word : Option String} (hon : word ≠ some "on") (hoff : word ≠ some "off") :
    Says (some "cheat") word (cheat none)
  | kick (name : Option String) : Says (some "kick") name (kick name)
  | help {first : String} (second : Option String) (hfirst : first ∉ ["cheat", "kick"]) :
    Says (some first) second help

/-- What a line with these words means. -/
inductive Command.Means (line : String) : List String → Command → Prop where
  | empty : Means line [] empty
  | race {words : List String} {order : RaceOrder} (h : RaceOrder.Says words.head? order) :
    Means line ("!sw" :: words) (race order)
  | moderation {words : List String} {order : ModerationOrder}
    (h : ModerationOrder.Says words.head? words.tail.head? order) :
    Means line ("/mmo" :: words) (moderation order)
  | chat {first : String} {words : List String} (hrace : first ≠ "!sw")
    (hmoderation : first ≠ "/mmo") : Means line (first :: words) (chat line)

/-! ## Orders -/

theorem RaceOrder.parse_of_cons_of_notMem {word : String} (h : word ∉ ["st", "lst", "fin", "stop"])
    (words : List String) : parse (word :: words) = help := by
  simp only [List.mem_cons, List.not_mem_nil, or_false, not_or] at h
  unfold parse
  split <;> simp_all

theorem RaceOrder.parse_eq_of_says {word : Option String} {order : RaceOrder}
    (h : Says word order) {words : List String} (hword : words.head? = word) : parse words = order := by
  cases words with
  | nil =>
    obtain rfl : none = word := hword
    cases h
    rfl
  | cons first words =>
    obtain rfl : some first = word := hword
    generalize hfirst : some first = word at h
    cases h with
    | missing => cases hfirst
    | start | readyStart | finish | stop =>
      obtain rfl := Option.some.inj hfirst
      rfl
    | help hword =>
      obtain rfl := Option.some.inj hfirst
      exact parse_of_cons_of_notMem hword words

theorem RaceOrder.says_parse (words : List String) : Says words.head? (parse words) := by
  unfold parse
  split
  case h_1 => exact .missing
  case h_2 => exact .start
  case h_3 => exact .readyStart
  case h_4 => exact .finish
  case h_5 => exact .stop
  case h_6 => exact .help (by simp_all)

theorem ModerationOrder.parse_of_cons_of_notMem {first : String} (h : first ∉ ["cheat", "kick"])
    (words : List String) : parse (first :: words) = help := by
  simp only [List.mem_cons, List.not_mem_nil, or_false, not_or] at h
  unfold parse
  split <;> simp_all

theorem ModerationOrder.parse_cheat {words : List String} (hon : words.head? ≠ some "on")
    (hoff : words.head? ≠ some "off") : parse ("cheat" :: words) = cheat none := by
  unfold parse
  split <;> simp_all

theorem ModerationOrder.parse_eq_of_says {first second : Option String} {order : ModerationOrder}
    (h : Says first second order) {words : List String} (hfirst : words.head? = first)
    (hsecond : words.tail.head? = second) : parse words = order := by
  cases words with
  | nil =>
    obtain rfl : none = first := hfirst
    cases h
    rfl
  | cons word words =>
    obtain rfl : some word = first := hfirst
    replace hsecond : words.head? = second := hsecond
    generalize hword : some word = first at h
    cases h with
    | missing => cases hword
    | cheatOn | cheatOff =>
      obtain rfl := Option.some.inj hword
      obtain ⟨rest, rfl⟩ := List.head?_eq_some_iff.mp hsecond
      rfl
    | cheat hon hoff =>
      obtain rfl := Option.some.inj hword
      exact parse_cheat (hsecond ▸ hon) (hsecond ▸ hoff)
    | kick =>
      obtain rfl := Option.some.inj hword
      rw [← hsecond]
      rfl
    | help _ hnone =>
      obtain rfl := Option.some.inj hword
      exact parse_of_cons_of_notMem hnone words

theorem ModerationOrder.says_parse (words : List String) :
    Says words.head? words.tail.head? (parse words) := by
  unfold parse
  split
  case h_1 => exact .missing _
  case h_2 => exact .cheatOn
  case h_3 => exact .cheatOff
  case h_4 rest hon hoff =>
    refine .cheat (fun h => ?_) fun h => ?_
    · obtain ⟨_, rfl⟩ := List.head?_eq_some_iff.mp h
      exact hon _ rfl
    · obtain ⟨_, rfl⟩ := List.head?_eq_some_iff.mp h
      exact hoff _ rfl
  case h_5 => exact .kick _
  case h_6 => exact .help _ (by simp_all)

/-! ## Commands -/

namespace Command

variable {line other : String} {words words' : List String} {c : Command}

theorem means_parse (line : String) : Means line (tokens line) (parse line) := by
  unfold parse
  split
  case h_1 hwords => exact hwords ▸ .empty
  case h_2 hwords => exact hwords ▸ .race (RaceOrder.says_parse _)
  case h_3 hwords => exact hwords ▸ .moderation (ModerationOrder.says_parse _)
  case h_4 hrace hmoderation hwords =>
    exact hwords ▸ .chat hrace hmoderation

theorem parse_of_tokens_empty (h : tokens line = []) : parse line = empty := by
  unfold parse
  rw [h]

theorem parse_of_tokens_race (h : tokens line = "!sw" :: words) :
    parse line = race (.parse words) := by
  unfold parse
  rw [h]
  rfl

theorem parse_of_tokens_moderation (h : tokens line = "/mmo" :: words) :
    parse line = moderation (.parse words) := by
  unfold parse
  rw [h]
  rfl

theorem parse_of_tokens_chat {first : String} (h : tokens line = first :: words)
    (hrace : first ≠ "!sw") (hmoderation : first ≠ "/mmo") : parse line = chat line := by
  unfold parse
  split <;> simp_all

theorem parse_eq_iff : parse line = c ↔ Means line (tokens line) c := by
  constructor
  · rintro rfl
    exact means_parse line
  · intro h
    generalize hwords : tokens line = words at h
    cases h with
    | empty => exact parse_of_tokens_empty hwords
    | race h => rw [parse_of_tokens_race hwords, RaceOrder.parse_eq_of_says h rfl]
    | moderation h =>
      rw [parse_of_tokens_moderation hwords, ModerationOrder.parse_eq_of_says h rfl rfl]
    | chat hrace hmoderation => exact parse_of_tokens_chat hwords hrace hmoderation

/-! ## Kinds of command -/

theorem Means.eq_empty_iff (h : Means line words c) : c = .empty ↔ words = [] := by
  cases h <;> simp

theorem Means.eq_race_iff (h : Means line words c) :
    (∃ order, c = .race order) ↔ words.head? = some "!sw" := by
  cases h <;> simp_all

theorem Means.eq_moderation_iff (h : Means line words c) :
    (∃ order, c = .moderation order) ↔ words.head? = some "/mmo" := by
  cases h <;> simp_all

theorem Means.eq_chat_iff (h : Means line words c) {text : String} :
    c = .chat text ↔
      text = line ∧ ∃ first ∈ words.head?, first ≠ "!sw" ∧ first ≠ "/mmo" := by
  cases h <;> simp_all [eq_comm]

theorem Means.eq_of_kick {name : Option String} (h : Means line words (.moderation (.kick name))) :
    words[2]? = name := by
  cases h with
  | @moderation words _ h =>
    generalize words.head? = first at h
    generalize hsecond : words.tail.head? = second at h
    cases h with
    | kick =>
      rw [← hsecond, List.head?_tail]
      rfl

/-! ## Spacing and further words -/

theorem heads_eq_of_take_two (h : words'.take 2 = words.take 2) :
    words'.head? = words.head? ∧ words'.tail.head? = words.tail.head? := by
  rcases words with _ | ⟨a, _ | ⟨b, words⟩⟩ <;> rcases words' with _ | ⟨a', _ | ⟨b', words'⟩⟩ <;>
    simp_all

theorem exists_cons_of_take_three {first : String}
    (h : words'.take 3 = (first :: words).take 3) :
    ∃ rest, words' = first :: rest ∧ rest.head? = words.head? ∧
      rest.tail.head? = words.tail.head? := by
  cases words' with
  | nil => simp at h
  | cons first' rest =>
    rw [List.take_succ_cons, List.take_succ_cons, List.cons.injEq] at h
    obtain ⟨rfl, htake⟩ := h
    exact ⟨rest, rfl, heads_eq_of_take_two htake⟩

/-- What is not chat is a matter of the first three words. -/
theorem Means.of_take_three (h : Means line words c) (hchat : c ≠ .chat line)
    (htake : words'.take 3 = words.take 3) (other : String) : Means other words' c := by
  cases h with
  | empty =>
    obtain rfl : words' = [] := by simpa using htake
    exact .empty
  | race h =>
    obtain ⟨rest, rfl, hfirst, -⟩ := exists_cons_of_take_three htake
    exact .race (hfirst ▸ h)
  | moderation h =>
    obtain ⟨rest, rfl, hfirst, hsecond⟩ := exists_cons_of_take_three htake
    refine .moderation ?_
    rw [hfirst, hsecond]
    exact h
  | chat => exact absurd rfl hchat

/-- Every line is read by its words, the longest runs of characters other than the space, and as the
one thing that they mean. The first three words decide everything but chat, which is the line as it
stands. -/
theorem parse_follows_grammar (line : String) :
    (∀ words, IsWords line words ↔ words = tokens line) ∧
      (∀ c, parse line = c ↔ Means line (tokens line) c) ∧
      (parse line = empty ↔ tokens line = []) ∧
      ((∃ order, parse line = race order) ↔ (tokens line).head? = some "!sw") ∧
      ((∃ order, parse line = moderation order) ↔ (tokens line).head? = some "/mmo") ∧
      (∀ text, parse line = chat text ↔
        text = line ∧ ∃ first ∈ (tokens line).head?, first ≠ "!sw" ∧ first ≠ "/mmo") ∧
      (∀ name, parse line = moderation (.kick name) →
        (tokens line)[2]? = name ∧ ∀ word ∈ name, word ≠ "" ∧ ' ' ∉ word.toList) ∧
      ∀ other, (tokens other).take 3 = (tokens line).take 3 → parse line ≠ chat line →
        parse other = parse line := by
  refine ⟨fun words => ?_, fun c => parse_eq_iff, ?_, ?_, ?_, fun text => ?_, fun name hkick => ?_,
    fun other htake hchat => ?_⟩
  · rw [← tokens_eq_iff, eq_comm]
  · exact (means_parse line).eq_empty_iff
  · exact (means_parse line).eq_race_iff
  · exact (means_parse line).eq_moderation_iff
  · exact (means_parse line).eq_chat_iff
  · obtain rfl := (parse_eq_iff.mp hkick).eq_of_kick
    exact ⟨rfl, fun word hword => of_mem_tokens (List.mem_of_getElem? hword)⟩
  · exact parse_eq_iff.mpr ((means_parse line).of_take_three hchat htake other)

/-- Spaces before, between and after the words, a fourth word, a tab that is no space, and a first word
that only begins like an order. -/
theorem parse_follows_grammar_spaced :
    parse "/mmo kick Zoë" = moderation (.kick (some "Zoë")) ∧
      (tokens "  /mmo  kick   Zoë now ").take 3 = (tokens "/mmo kick Zoë").take 3 ∧
      parse "  /mmo  kick   Zoë now " = moderation (.kick (some "Zoë")) ∧
      (tokens "/mmo kick Zoë")[2]? = some "Zoë" ∧
      parse "!sw\tst" = chat "!sw\tst" ∧ parse " !swst  fin" = chat " !swst  fin" := by
  have hkick : parse "/mmo kick Zoë" = moderation (.kick (some "Zoë")) := by decide
  have hsame : (tokens "  /mmo  kick   Zoë now ").take 3 = (tokens "/mmo kick Zoë").take 3 := by
    decide
  obtain ⟨-, -, -, -, -, -, hname, hrespaced⟩ := parse_follows_grammar "/mmo kick Zoë"
  have hother := hrespaced _ hsame (by rw [hkick]; nofun)
  exact ⟨hkick, hsame, hother.trans hkick, (hname _ hkick).1, by decide, by decide⟩

end Command

end RaceSteward.Console
