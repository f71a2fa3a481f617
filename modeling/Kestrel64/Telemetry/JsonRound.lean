import Kestrel64.Telemetry.Json

/-! # Telemetry: JSON Comes Back

    What `dump` writes, `parse` reads back. The parser is compared with the
    serializer one construct at a time, in front of any text that may follow
    a value: `Reads` says that it takes exactly what was written.

    An integer may come back with the other sign flag, since the text of a
    non-negative number does not show it. `Value.data` is a value without the
    flag, and it is what comes back.
-/

namespace Json

variable {F : Type} {D : Doubles F}

/-! ## Section 1: What a value stands for -/

/-- A value with its integers as numbers. -/
inductive Data (F : Type) where
  | null
  | bool (b : Bool)
  | int (n : Int)
  | num (d : F)
  | str (s : Bytes)
  | arr (a : List (Data F))
  | obj (o : List (Bytes × Data F))

/-- The number the 64 bits and the flag stand for. -/
def intValue (sign : Bool) (u : BitVec 64) : Int := if sign then u.toInt else u.toNat

mutual

def Value.data : Value F → Data F
  | .null => .null
  | .bool b => .bool b
  | .int sign u => .int (intValue sign u)
  | .num d => .num d
  | .str s => .str s
  | .arr a => .arr (dataItems a)
  | .obj o => .obj (dataFields o)

def dataItems : List (Value F) → List (Data F)
  | [] => []
  | v :: a => v.data :: dataItems a

def dataFields : List (Bytes × Value F) → List (Bytes × Data F)
  | [] => []
  | (k, v) :: o => (k, v.data) :: dataFields o

end

/-- A value without doubles; the keys of its objects are in order, as those of
    a `std::map` are. -/
inductive Value.Exact : Value F → Prop where
  | null : Exact .null
  | bool (b : Bool) : Exact (.bool b)
  | int (sign : Bool) (u : BitVec 64) : Exact (.int sign u)
  | str (s : Bytes) : Exact (.str s)
  | arr {a : List (Value F)} (items : ∀ v ∈ a, Exact v) : Exact (.arr a)
  | obj {o : List (Bytes × Value F)} (keys : o.Pairwise fun f g => f.1 < g.1)
      (fields : ∀ f ∈ o, Exact f.2) : Exact (.obj o)

/-- What may come after a value: nothing, or what ends or separates values. -/
def Follow (rest : Bytes) : Prop :=
  ∀ b, rest.head? = some b → b = comma ∨ b = closeBrace ∨ b = closeBracket

/-- With `v` in front, the parser takes `v` and leaves the rest. -/
def Reads (D : Doubles F) (v : Value F) : Prop :=
  ∀ (fuel : Nat) (rest : Bytes), 2 * (serialize D v).length ≤ fuel → Follow rest →
    ∃ w, Parser.value D fuel { p := serialize D v ++ rest } = (w, { p := rest }) ∧
      w.data = v.data ∧ serialize D w = serialize D v

theorem Follow.not_numeric {rest : Bytes} (h : Follow rest) :
    ∀ b, rest.head? = some b → isNumeric b = false := by
  intro b hb
  rcases h b hb with rfl | rfl | rfl <;> decide

theorem Follow.ws {rest : Bytes} (h : Follow rest) : Parser.ws { p := rest } = { p := rest } := by
  cases rest with
  | nil => rfl
  | cons b rest =>
    have hb : isSpace b = false := by
      rcases h b rfl with rfl | rfl | rfl <;> decide
    simp [Parser.ws, hb]

theorem follow_cons {b : Byte} (h : b = comma ∨ b = closeBrace ∨ b = closeBracket) (rest : Bytes) :
    Follow (b :: rest) := by
  intro c hc
  rw [← Option.some.inj hc]
  exact h

theorem ws_cons {c : Byte} (h : isSpace c = false) (p : Bytes) :
    Parser.ws { p := c :: p } = { p := c :: p } := by
  simp [Parser.ws, h]

/-! ## Section 2: Strings -/

theorem stringBody_plain {e : Byte} (h : e ≠ ascii 'u') (p : Bytes) :
    stringBody (backslash :: e :: p) = (unescape e :: (stringBody p).1, (stringBody p).2) := by
  have hne : ¬ backslash = quote := by decide
  rw [stringBody.eq_def]
  simp only [if_neg hne, if_true, if_neg h]

theorem stringBody_unicode (a b c d : Byte) (p : Bytes) :
    stringBody (backslash :: ascii 'u' :: a :: b :: c :: d :: p) =
      (unicode [a, b, c, d] :: (stringBody p).1, (stringBody p).2) := by
  have hne : ¬ backslash = quote := by decide
  rw [stringBody]
  simp only [if_neg hne, if_true]

/-- A byte that was escaped is read as itself. -/
theorem stringBody_escapeByte (c : Byte) (p : Bytes) :
    stringBody (escapeByte c ++ p) = (c :: (stringBody p).1, (stringBody p).2) := by
  have hcontrol : ∀ n < 0x20, unicode [ascii '0', ascii '0', hexDigit (n / 16), hexDigit (n % 16)] =
      BitVec.ofNat 8 n := by decide
  unfold escapeByte
  split
  · next h =>
    subst h
    exact stringBody_plain (e := quote) (by decide) p
  split
  · next h =>
    subst h
    exact stringBody_plain (e := backslash) (by decide) p
  split
  · next h =>
    subst h
    exact stringBody_plain (e := ascii 'n') (by decide) p
  split
  · next h =>
    subst h
    exact stringBody_plain (e := ascii 'r') (by decide) p
  split
  · next h =>
    subst h
    exact stringBody_plain (e := ascii 't') (by decide) p
  split
  · next h =>
    have hc := hcontrol c.toNat h
    rw [BitVec.ofNat_toNat, BitVec.setWidth_eq] at hc
    exact (stringBody_unicode _ _ _ _ p).trans (by rw [hc])
  · next hquote hback _ _ _ _ =>
    rw [List.singleton_append, stringBody.eq_def]
    simp only [if_neg hquote, if_neg hback]

/-- A string is read up to its closing quote. -/
theorem stringBody_escape (s p : Bytes) :
    stringBody (s.flatMap escapeByte ++ quote :: p) = (s, p) := by
  induction s with
  | nil =>
    rw [List.flatMap_nil, List.nil_append, stringBody.eq_def]
    simp
  | cons c s ih => rw [List.flatMap_cons, List.append_assoc, stringBody_escapeByte, ih]

theorem string_escape (s p : Bytes) :
    Parser.string { p := escape s ++ p } = (s, { p := p }) := by
  have hbody : (escape s ++ p).tail = s.flatMap escapeByte ++ quote :: p := by
    simp [escape, List.append_assoc]
  simp only [Parser.string, hbody, stringBody_escape]

/-! ## Section 3: Numbers -/

theorem numeric_of_digit {b : Byte} (h : Decimal.isDigit b = true) :
    isNumeric b = true ∧ isFraction b = false ∧ b ≠ minus ∧ b ≠ plus := by
  refine ⟨by simp [isNumeric, h], ?_, ?_, ?_⟩
  · simp only [isFraction, Bool.or_eq_false_iff, decide_eq_false_iff_not]
    refine ⟨⟨?_, ?_⟩, ?_⟩ <;> rintro rfl <;> exact absurd h (by decide)
  · rintro rfl
    exact absurd h (by decide)
  · rintro rfl
    exact absurd h (by decide)

/-- The digits of a number are one token. -/
theorem numeric_text (n : Nat) : ∀ b ∈ Decimal.text n, isNumeric b = true ∧ isFraction b = false :=
  fun _ hb => ⟨(numeric_of_digit (Decimal.isDigit_of_mem_text hb)).1,
    (numeric_of_digit (Decimal.isDigit_of_mem_text hb)).2.1⟩

theorem span_numeric {s rest : Bytes} (hs : ∀ b ∈ s, isNumeric b = true) (hr : Follow rest) :
    (s ++ rest).takeWhile isNumeric = s ∧ (s ++ rest).dropWhile isNumeric = rest := by
  have hstop := hr.not_numeric
  rw [List.takeWhile_append_of_pos hs, List.dropWhile_append_of_pos hs]
  cases rest with
  | nil => simp
  | cons b rest => simp [hstop b rfl]

/-- The first byte of a number is a digit. -/
theorem head_text (n : Nat) : ∃ b bs, Decimal.text n = b :: bs ∧ Decimal.isDigit b = true := by
  cases h : Decimal.text n with
  | nil => exact absurd h (Decimal.text_ne_nil n)
  | cons b bs =>
    refine ⟨b, bs, rfl, Decimal.isDigit_of_mem_text (n := n) ?_⟩
    rw [h]
    exact List.mem_cons_self ..

theorem strtoull_text {n : Nat} (h : n < 2 ^ 64) :
    strtoull (Decimal.text n) = BitVec.ofNat 64 n := by
  obtain ⟨b, bs, htext, hb⟩ := head_text n
  obtain ⟨-, -, hminus, hplus⟩ := numeric_of_digit hb
  have hval := Decimal.value_text n [] (by simp)
  rw [List.append_nil, htext] at hval
  have hbig : ¬ 2 ^ 64 ≤ n := by omega
  simp only [strtoull, htext, List.head?_cons, Option.some.injEq, hminus, hplus, or_self, if_false,
    hval, if_neg hbig]

theorem strtoll_text {n : Nat} (h : n ≤ 2 ^ 63) :
    strtoll (minus :: Decimal.text n) = BitVec.ofInt 64 (-n) := by
  have hval := Decimal.value_text n [] (by simp)
  rw [List.append_nil] at hval
  have hclamp : max (-2 ^ 63) (min (2 ^ 63 - 1) (-(n : Int))) = -n := by omega
  simp only [strtoll, List.head?_cons, true_or, if_true, List.tail_cons, hval, hclamp]

/-- A non-negative number comes back without the sign flag. -/
theorem number_text {n : Nat} (h : n < 2 ^ 64) {rest : Bytes} (hr : Follow rest) :
    Parser.number D { p := Decimal.text n ++ rest } =
      (.int false (BitVec.ofNat 64 n), { p := rest }) := by
  obtain ⟨htake, hdrop⟩ := span_numeric (fun b hb => (numeric_text n b hb).1) hr
  have hfrac : (Decimal.text n).any isFraction = false := by
    rw [List.any_eq_false]
    intro b hb
    simp [(numeric_text n b hb).2]
  have hhead : ¬ (Decimal.text n).head? = some minus := by
    obtain ⟨b, bs, htext, hb⟩ := head_text n
    rw [htext, List.head?_cons, Option.some.injEq]
    exact (numeric_of_digit hb).2.2.1
  simp only [Parser.number, htake, hdrop, hfrac, Bool.false_eq_true, if_false, if_neg hhead,
    strtoull_text h]

/-- A negative number comes back as it was. -/
theorem number_minus {n : Nat} (h : n ≤ 2 ^ 63) {rest : Bytes} (hr : Follow rest) :
    Parser.number D { p := minus :: Decimal.text n ++ rest } =
      (.int true (BitVec.ofInt 64 (-n)), { p := rest }) := by
  have hnum : ∀ b ∈ minus :: Decimal.text n, isNumeric b = true ∧ isFraction b = false := by
    intro b hb
    rcases List.mem_cons.mp hb with rfl | hb
    · decide
    · exact numeric_text n b hb
  obtain ⟨htake, hdrop⟩ := span_numeric (fun b hb => (hnum b hb).1) hr
  have hfrac : (minus :: Decimal.text n).any isFraction = false := by
    rw [List.any_eq_false]
    intro b hb
    simp [(hnum b hb).2]
  simp only [Parser.number, htake, hdrop, hfrac, Bool.false_eq_true, if_false, List.head?_cons,
    if_true, strtoll_text h]

/-! ## Section 4: Values -/

theorem matchLit_append (cs rest : Bytes) :
    Parser.matchLit { p := cs ++ rest } cs = some { p := rest } := by
  simp only [Parser.matchLit, if_pos (List.prefix_append cs rest), List.drop_left]

/-- The parser looks at the first byte, which is no space. -/
theorem value_head {c : Byte} (h : isSpace c = false) (fuel : Nat) (p : Bytes) :
    Parser.value D (fuel + 1) { p := c :: p } =
      if c = openBrace then Parser.object D fuel { p := c :: p }
      else if c = openBracket then Parser.array D fuel { p := c :: p }
      else if c = quote then (.str (Parser.string { p := c :: p }).1, (Parser.string { p := c :: p }).2)
      else if c = ascii 't' then
        match Parser.matchLit { p := c :: p } (lit ['t', 'r', 'u', 'e']) with
        | some q => (.bool true, q)
        | none => (.null, Parser.fail { p := c :: p })
      else if c = ascii 'f' then
        match Parser.matchLit { p := c :: p } (lit ['f', 'a', 'l', 's', 'e']) with
        | some q => (.bool false, q)
        | none => (.null, Parser.fail { p := c :: p })
      else if c = ascii 'n' then
        match Parser.matchLit { p := c :: p } (lit ['n', 'u', 'l', 'l']) with
        | some q => (.null, q)
        | none => (.null, Parser.fail { p := c :: p })
      else Parser.number D { p := c :: p } := by
  rw [Parser.value, ws_cons h]
  rfl

theorem value_digit {b : Byte} (h : Decimal.isDigit b = true ∨ b = minus) (fuel : Nat) (p : Bytes) :
    Parser.value D (fuel + 1) { p := b :: p } = Parser.number D { p := b :: p } := by
  have hne : ∀ c : Byte, Decimal.isDigit c = false → c ≠ minus → b ≠ c := by
    rintro c hc hm rfl
    rcases h with h | h
    · rw [hc] at h
      cases h
    · exact hm h
  have hspace : isSpace b = false := by
    simp only [isSpace, Bool.or_eq_false_iff, decide_eq_false_iff_not]
    exact ⟨⟨⟨hne _ (by decide) (by decide), hne _ (by decide) (by decide)⟩,
      hne _ (by decide) (by decide)⟩, hne _ (by decide) (by decide)⟩
  rw [value_head hspace, if_neg (hne _ (by decide) (by decide)),
    if_neg (hne _ (by decide) (by decide)), if_neg (hne _ (by decide) (by decide)),
    if_neg (hne _ (by decide) (by decide)), if_neg (hne _ (by decide) (by decide)),
    if_neg (hne _ (by decide) (by decide))]

theorem exists_succ {n fuel : Nat} (hn : 0 < n) (h : 2 * n ≤ fuel) : ∃ f, fuel = f + 1 :=
  Nat.exists_eq_add_one_of_ne_zero (by omega)

theorem reads_null : Reads D .null := by
  intro fuel rest hfuel _
  obtain ⟨f, rfl⟩ := exists_succ (n := 4) (by decide) hfuel
  have hmatch := matchLit_append (lit ['n', 'u', 'l', 'l']) rest
  have hvalue := value_head (D := D) (c := ascii 'n') (by decide) f
    (lit ['u', 'l', 'l'] ++ rest)
  rw [if_neg (by decide), if_neg (by decide), if_neg (by decide), if_neg (by decide),
    if_neg (by decide), if_pos rfl] at hvalue
  exact ⟨.null, hvalue.trans (by erw [hmatch]), rfl, rfl⟩

theorem reads_bool (b : Bool) : Reads D (.bool b) := by
  intro fuel rest hfuel _
  cases b with
  | true =>
    obtain ⟨f, rfl⟩ := exists_succ (n := 4) (by decide) hfuel
    have hmatch := matchLit_append (lit ['t', 'r', 'u', 'e']) rest
    have hvalue := value_head (D := D) (c := ascii 't') (by decide) f
      (lit ['r', 'u', 'e'] ++ rest)
    rw [if_neg (by decide), if_neg (by decide), if_neg (by decide), if_pos rfl] at hvalue
    exact ⟨.bool true, hvalue.trans (by erw [hmatch]), rfl, rfl⟩
  | false =>
    obtain ⟨f, rfl⟩ := exists_succ (n := 5) (by decide) hfuel
    have hmatch := matchLit_append (lit ['f', 'a', 'l', 's', 'e']) rest
    have hvalue := value_head (D := D) (c := ascii 'f') (by decide) f
      (lit ['a', 'l', 's', 'e'] ++ rest)
    rw [if_neg (by decide), if_neg (by decide), if_neg (by decide), if_neg (by decide),
      if_pos rfl] at hvalue
    exact ⟨.bool false, hvalue.trans (by erw [hmatch]), rfl, rfl⟩

theorem reads_str (s : Bytes) : Reads D (.str s) := by
  intro fuel rest hfuel _
  have hlen : 0 < (serialize D (.str s)).length := by simp [serialize, escape]
  obtain ⟨f, rfl⟩ := exists_succ hlen hfuel
  have hvalue := value_head (D := D) (c := quote) (by decide) f
    (s.flatMap escapeByte ++ [quote] ++ rest)
  rw [if_neg (by decide), if_neg (by decide), if_pos rfl] at hvalue
  have hstring := string_escape s rest
  simp only [escape, List.cons_append] at hstring
  refine ⟨.str s, ?_, rfl, rfl⟩
  simp only [serialize, escape, List.cons_append]
  rw [hvalue, hstring]

/-! ### Numbers: the text decides the sign flag -/

theorem reads_nonneg {v : Value F} {n : Nat} (hn : n < 2 ^ 64) (hdata : v.data = .int n)
    (htext : serialize D v = Decimal.text n) : Reads D v := by
  intro fuel rest hfuel hr
  obtain ⟨b, bs, htext', hb⟩ := head_text n
  rw [htext] at hfuel ⊢
  have hlen : 0 < (Decimal.text n).length := by simp [htext']
  obtain ⟨f, rfl⟩ := exists_succ hlen hfuel
  have hto : (BitVec.ofNat 64 n).toNat = n := by
    rw [BitVec.toNat_ofNat]
    exact Nat.mod_eq_of_lt hn
  refine ⟨.int false (BitVec.ofNat 64 n), ?_, ?_, ?_⟩
  · rw [← number_text (D := D) hn hr, htext']
    exact value_digit (.inl hb) f _
  · simp only [hdata, Value.data, intValue, Bool.false_eq_true, if_false, hto]
  · simp only [serialize, Bool.false_eq_true, if_false, hto]

theorem reads_negative {u : BitVec 64} (hu : u.toInt < 0) : Reads D (.int true u) := by
  intro fuel rest hfuel hr
  have htext : serialize D (.int true u) = minus :: Decimal.text u.toInt.natAbs := by
    simp only [serialize, if_true, intText, if_pos hu]
  have hlow : -2 ^ 63 ≤ u.toInt := BitVec.le_toInt u
  have hback : BitVec.ofInt 64 (-(u.toInt.natAbs : Int)) = u := by
    rw [show -(u.toInt.natAbs : Int) = u.toInt by omega]
    exact BitVec.ofInt_toInt
  obtain ⟨f, rfl⟩ := exists_succ (n := (serialize D (.int true u)).length) (by simp [htext]) hfuel
  refine ⟨.int true u, ?_, rfl, rfl⟩
  rw [htext]
  have hnumber := number_minus (D := D) (n := u.toInt.natAbs) (by omega) hr
  rw [hback] at hnumber
  rw [← hnumber]
  exact value_digit (.inr rfl) f _

theorem reads_int (sign : Bool) (u : BitVec 64) : Reads D (.int sign u) := by
  cases sign with
  | false => exact reads_nonneg u.isLt rfl rfl
  | true =>
    by_cases hu : u.toInt < 0
    · exact reads_negative hu
    · have hlt := BitVec.toInt_lt (x := u)
      apply reads_nonneg (n := u.toInt.natAbs) (by omega)
      · simp only [Value.data, intValue, if_true]
        congr 1
        omega
      · simp only [serialize, if_true, intText, if_neg hu]

/-! ## Section 5: Arrays and objects -/

/-- A value begins with a byte that is neither a space nor the end of an array. -/
theorem serialize_head {v : Value F} (h : v.Exact) :
    ∃ b bs, serialize D v = b :: bs ∧ isSpace b = false ∧ b ≠ closeBracket := by
  have hdigit : ∀ n, ∃ b bs, Decimal.text n = b :: bs ∧ isSpace b = false ∧ b ≠ closeBracket := by
    intro n
    obtain ⟨b, bs, htext, hb⟩ := head_text n
    refine ⟨b, bs, htext, ?_, ?_⟩
    · simp only [isSpace, Bool.or_eq_false_iff, decide_eq_false_iff_not]
      refine ⟨⟨⟨?_, ?_⟩, ?_⟩, ?_⟩ <;> rintro rfl <;> exact absurd hb (by decide)
    · rintro rfl
      exact absurd hb (by decide)
  cases h with
  | null => exact ⟨ascii 'n', lit ['u', 'l', 'l'], rfl, by decide, by decide⟩
  | bool b =>
    cases b with
    | true => exact ⟨ascii 't', lit ['r', 'u', 'e'], rfl, by decide, by decide⟩
    | false => exact ⟨ascii 'f', lit ['a', 'l', 's', 'e'], rfl, by decide, by decide⟩
  | int sign u =>
    simp only [serialize, intText]
    split
    · split
      · exact ⟨minus, _, rfl, by decide, by decide⟩
      · exact hdigit _
    · exact hdigit _
  | str s => exact ⟨quote, _, rfl, by decide, by decide⟩
  | arr items => exact ⟨openBracket, _, rfl, by decide, by decide⟩
  | obj keys fields => exact ⟨openBrace, _, rfl, by decide, by decide⟩

/-- What stands between an item and the end of its array may follow the item. -/
theorem follow_items (vs : List (Value F)) (rest : Bytes) :
    Follow (serializeItems D false vs ++ closeBracket :: rest) := by
  cases vs with
  | nil => exact follow_cons (.inr (.inr rfl)) _
  | cons v vs => exact follow_cons (.inl rfl) _

theorem follow_fields (o : List (Bytes × Value F)) (rest : Bytes) :
    Follow (serializeFields D false o ++ closeBrace :: rest) := by
  cases o with
  | nil => exact follow_cons (.inr (.inl rfl)) _
  | cons f o => exact follow_cons (.inl rfl) _

theorem head?_ne_of_head {c b : Byte} {bs : Bytes} (h : b ≠ c) : ¬ (b :: bs).head? = some c :=
  fun hc => h (Option.some.inj hc)

/-- The loop of `array` reads the items that were written, one after another. -/
theorem items_read (vs : List (Value F)) :
    ∀ (v : Value F) (acc : List (Value F)) (fuel : Nat) (rest : Bytes),
      (∀ w ∈ v :: vs, Reads D w) →
      2 * (serialize D v ++ serializeItems D false vs).length + 1 ≤ fuel →
      ∃ ws, Parser.items D fuel acc
          { p := serialize D v ++ (serializeItems D false vs ++ closeBracket :: rest) } =
            (.arr (acc ++ ws), { p := rest }) ∧
        dataItems ws = dataItems (v :: vs) ∧
        ∀ first, serializeItems D first ws = serializeItems D first (v :: vs) := by
  induction vs with
  | nil =>
    intro v acc fuel rest hreads hfuel
    obtain ⟨f, rfl⟩ := Nat.exists_eq_add_one_of_ne_zero (n := fuel) (by omega)
    simp only [serializeItems, List.append_nil, List.nil_append] at hfuel ⊢
    obtain ⟨w, hvalue, hdata, htext⟩ := hreads v (by simp) f (closeBracket :: rest) (by omega)
      (follow_items (D := D) [] rest)
    refine ⟨[w], ?_, ?_, ?_⟩
    · rw [Parser.items, if_neg (by simp), hvalue]
      simp only [ws_cons (c := closeBracket) (by decide), List.head?_cons, if_true, List.tail_cons]
      rw [if_neg (by decide)]
    · simp only [dataItems, hdata]
    · intro first
      simp only [serializeItems, htext, List.append_nil]
  | cons v' vs ih =>
    intro v acc fuel rest hreads hfuel
    obtain ⟨f, rfl⟩ := Nat.exists_eq_add_one_of_ne_zero (n := fuel) (by omega)
    have hfollow := follow_items (D := D) (v' :: vs) rest
    obtain ⟨w, hvalue, hdata, htext⟩ := hreads v (by simp) f _ (by simp at hfuel; omega) hfollow
    have hcomma : serializeItems D false (v' :: vs) ++ closeBracket :: rest =
        comma :: (serialize D v' ++ (serializeItems D false vs ++ closeBracket :: rest)) := by
      simp [serializeItems, List.append_assoc]
    obtain ⟨ws, hitems, hdatas, htexts⟩ := ih v' (acc ++ [w]) f rest
      (fun x hx => hreads x (List.mem_cons_of_mem _ hx))
      (by simp [serializeItems] at hfuel ⊢; omega)
    refine ⟨w :: ws, ?_, ?_, ?_⟩
    · rw [hcomma] at hvalue
      rw [Parser.items, if_neg (by simp [hcomma]), hcomma, hvalue]
      simp only [ws_cons (c := comma) (by decide), List.head?_cons, if_true, List.tail_cons, hitems,
        List.append_assoc, List.singleton_append]
    · simp only [dataItems, hdata] at hdatas ⊢
      rw [hdatas]
    · intro first
      simp only [serializeItems, htext, htexts false]

theorem reads_arr {a : List (Value F)} (hexact : ∀ v ∈ a, v.Exact)
    (hreads : ∀ v ∈ a, Reads D v) : Reads D (.arr a) := by
  intro fuel rest hfuel _
  have hlen : (serialize D (.arr a)).length = (serializeItems D true a).length + 2 := by
    simp [serialize]
  rw [hlen] at hfuel
  obtain ⟨f, rfl⟩ := Nat.exists_eq_add_of_le (m := 2) (n := fuel) (by omega)
  rw [Nat.add_comm 2 f]
  have htext : serialize D (.arr a) ++ rest =
      openBracket :: (serializeItems D true a ++ closeBracket :: rest) := by
    simp [serialize, List.append_assoc]
  have hvalue := value_head (D := D) (c := openBracket) (by decide) (f + 1)
    (serializeItems D true a ++ closeBracket :: rest)
  rw [if_neg (by decide), if_pos rfl, ← htext] at hvalue
  cases a with
  | nil =>
    refine ⟨.arr [], ?_, rfl, rfl⟩
    rw [hvalue, Parser.array, htext]
    simp only [List.tail_cons, serializeItems, List.nil_append,
      ws_cons (c := closeBracket) (by decide), List.head?_cons, if_true]
  | cons v vs =>
    obtain ⟨b, bs, hhead, hspace, hclose⟩ := serialize_head (D := D) (hexact v (by simp))
    have hitemsText : serializeItems D true (v :: vs) ++ closeBracket :: rest =
        serialize D v ++ (serializeItems D false vs ++ closeBracket :: rest) := by
      simp [serializeItems, List.append_assoc]
    obtain ⟨ws, hitems, hdatas, htexts⟩ := items_read vs v [] f rest hreads
      (by simp [serializeItems] at hfuel ⊢; omega)
    refine ⟨.arr ws, ?_, ?_, ?_⟩
    · rw [hvalue, Parser.array, htext, List.tail_cons, hitemsText]
      rw [hhead] at hitems ⊢
      simp only [List.cons_append] at hitems ⊢
      simp only [ws_cons hspace, if_neg (head?_ne_of_head hclose), hitems, List.nil_append]
    · simp only [Value.data, hdatas]
    · simp only [serialize, htexts true]

/-- One round of the loop of `object`: a key, a colon and a value. -/
theorem fields_round {k : Bytes} {v w : Value F} {acc : List (Bytes × Value F)} {fuel : Nat}
    {tail : Bytes} (hacc : ∀ e ∈ acc, e.1 < k) (hfollow : Follow tail)
    (hvalue : Parser.value D fuel { p := serialize D v ++ tail } = (w, { p := tail })) :
    Parser.fields D (fuel + 1) acc { p := escape k ++ colon :: (serialize D v ++ tail) } =
      if tail.head? = some comma then Parser.fields D fuel (acc ++ [(k, w)]) { p := tail.tail }
      else if tail.head? = some closeBrace then (.obj (acc ++ [(k, w)]), { p := tail.tail })
      else (.obj (acc ++ [(k, w)]), Parser.fail { p := tail }) := by
  have hquote : escape k ++ colon :: (serialize D v ++ tail) =
      quote :: (k.flatMap escapeByte ++ [quote] ++ colon :: (serialize D v ++ tail)) := by
    simp [escape]
  have hstring := string_escape k (colon :: (serialize D v ++ tail))
  rw [hquote] at hstring ⊢
  rw [Parser.fields, if_neg (by simp)]
  simp only [ws_cons (c := quote) (by decide), List.head?_cons, hstring,
    ws_cons (c := colon) (by decide), List.tail_cons, hvalue, hfollow.ws, ne_eq, not_true, if_false,
    OrdMap.insertEntry_last w hacc]

/-- The loop of `object` reads the fields that were written: their keys are in
    order and behind those it has, so each new field goes to the end. -/
theorem fields_read (o : List (Bytes × Value F)) :
    ∀ (k : Bytes) (v : Value F) (acc : List (Bytes × Value F)) (fuel : Nat) (rest : Bytes),
      (∀ f ∈ (k, v) :: o, Reads D f.2) →
      ((k, v) :: o).Pairwise (fun f g => f.1 < g.1) →
      (∀ e ∈ acc, e.1 < k) →
      2 * (serializeFields D true ((k, v) :: o)).length + 1 ≤ fuel →
      ∃ ws, Parser.fields D fuel acc
          { p := serializeFields D true ((k, v) :: o) ++ closeBrace :: rest } =
            (.obj (acc ++ ws), { p := rest }) ∧
        dataFields ws = dataFields ((k, v) :: o) ∧
        ∀ first, serializeFields D first ws = serializeFields D first ((k, v) :: o) := by
  induction o with
  | nil =>
    intro k v acc fuel rest hreads hkeys hacc hfuel
    obtain ⟨f, rfl⟩ := Nat.exists_eq_add_one_of_ne_zero (n := fuel) (by omega)
    simp only [serializeFields, if_true, List.nil_append, List.append_nil, List.length_append,
      List.length_cons] at hfuel
    have hfollow : Follow (closeBrace :: rest) := follow_fields (D := D) [] rest
    obtain ⟨w, hvalue, hdata, htext⟩ := hreads (k, v) (by simp) f _ (by simp only; omega) hfollow
    have hbegin : serializeFields D true [(k, v)] ++ closeBrace :: rest =
        escape k ++ colon :: (serialize D v ++ closeBrace :: rest) := by
      simp [serializeFields, List.append_assoc]
    refine ⟨[(k, w)], ?_, ?_, ?_⟩
    · rw [hbegin, fields_round hacc hfollow hvalue, List.head?_cons, if_neg (by decide), if_pos rfl,
        List.tail_cons]
    · simp only [dataFields, hdata]
    · intro first
      simp only [serializeFields, htext]
  | cons g o ih =>
    obtain ⟨k', v'⟩ := g
    intro k v acc fuel rest hreads hkeys hacc hfuel
    obtain ⟨f, rfl⟩ := Nat.exists_eq_add_one_of_ne_zero (n := fuel) (by omega)
    simp only [serializeFields, if_true, Bool.false_eq_true, if_false, List.nil_append,
      List.length_append, List.length_cons, List.cons_append] at hfuel
    have hfollow := follow_fields (D := D) ((k', v') :: o) rest
    obtain ⟨w, hvalue, hdata, htext⟩ := hreads (k, v) (by simp) f _ (by simp only; omega) hfollow
    obtain ⟨hlast, hkeys⟩ := List.pairwise_cons.mp hkeys
    -- all keys so far are below the next one
    have hacc' : ∀ e ∈ acc ++ [(k, w)], e.1 < k' := by
      intro e he
      have hk : k < k' := hlast (k', v') (by simp)
      rcases List.mem_append.mp he with he | he
      · exact lt_trans (hacc e he) hk
      · rw [List.mem_singleton.mp he]
        exact hk
    obtain ⟨ws, hfields, hdatas, htexts⟩ := ih k' v' (acc ++ [(k, w)]) f rest
      (fun x hx => hreads x (List.mem_cons_of_mem _ hx)) hkeys hacc'
      (by simp only [serializeFields, if_true, List.nil_append, List.length_append,
            List.length_cons]; omega)
    have hbegin : serializeFields D true ((k, v) :: (k', v') :: o) ++ closeBrace :: rest =
        escape k ++ colon ::
          (serialize D v ++ (serializeFields D false ((k', v') :: o) ++ closeBrace :: rest)) := by
      simp [serializeFields, List.append_assoc]
    have hcomma : serializeFields D false ((k', v') :: o) ++ closeBrace :: rest =
        comma :: (serializeFields D true ((k', v') :: o) ++ closeBrace :: rest) := by
      simp [serializeFields, List.append_assoc]
    refine ⟨(k, w) :: ws, ?_, ?_, ?_⟩
    · rw [hbegin, fields_round hacc hfollow hvalue, hcomma, List.head?_cons, if_pos rfl,
        List.tail_cons, hfields, List.append_assoc, List.singleton_append]
    · rw [dataFields, hdatas, hdata, ← dataFields]
    · intro first
      have hnext := htexts false
      simp only [serializeFields] at hnext ⊢
      rw [hnext, htext]

theorem reads_obj {o : List (Bytes × Value F)} (hkeys : o.Pairwise fun f g => f.1 < g.1)
    (hreads : ∀ f ∈ o, Reads D f.2) : Reads D (.obj o) := by
  intro fuel rest hfuel _
  have hlen : (serialize D (.obj o)).length = (serializeFields D true o).length + 2 := by
    simp [serialize]
  rw [hlen] at hfuel
  obtain ⟨f, rfl⟩ := Nat.exists_eq_add_of_le (m := 2) (n := fuel) (by omega)
  rw [Nat.add_comm 2 f]
  have htext : serialize D (.obj o) ++ rest =
      openBrace :: (serializeFields D true o ++ closeBrace :: rest) := by
    simp [serialize, List.append_assoc]
  have hvalue := value_head (D := D) (c := openBrace) (by decide) (f + 1)
    (serializeFields D true o ++ closeBrace :: rest)
  rw [if_pos rfl, ← htext] at hvalue
  cases o with
  | nil =>
    refine ⟨.obj [], ?_, rfl, rfl⟩
    rw [hvalue, Parser.object, htext]
    simp only [List.tail_cons, serializeFields, List.nil_append,
      ws_cons (c := closeBrace) (by decide), List.head?_cons, if_true]
  | cons g o =>
    obtain ⟨k, v⟩ := g
    obtain ⟨ws, hfields, hdatas, htexts⟩ := fields_read o k v [] f rest hreads hkeys
      (by simp) (by omega)
    have hquote : serializeFields D true ((k, v) :: o) ++ closeBrace :: rest =
        quote :: (k.flatMap escapeByte ++ quote :: colon ::
          (serialize D v ++ (serializeFields D false o ++ closeBrace :: rest))) := by
      simp [serializeFields, escape]
    refine ⟨.obj ws, ?_, ?_, ?_⟩
    · rw [hvalue, Parser.object, htext, List.tail_cons]
      rw [hquote] at hfields ⊢
      simp only [ws_cons (c := quote) (by decide),
        if_neg (head?_ne_of_head (c := closeBrace) (b := quote) (by decide)), hfields,
        List.nil_append]
    · simp only [Value.data, hdatas]
    · simp only [serialize, htexts true]

/-! ## Section 6: The round trip -/

/-- Every value without doubles is read as it was written, whatever follows. -/
theorem Value.Exact.reads {v : Value F} (h : v.Exact) : Reads D v := by
  induction h with
  | null => exact reads_null
  | bool b => exact reads_bool b
  | int sign u => exact reads_int sign u
  | str s => exact reads_str s
  | arr items ih => exact reads_arr items ih
  | obj keys _ ih => exact reads_obj keys ih

/-- What `dump` writes for a value without doubles, `parse` reads back: all is
    well, the value is the same up to the sign flags of its integers, and its
    text is the same. -/
theorem parse_dump (D : Doubles F) (v : Value F) (h : v.Exact) :
    (parse D (dump D v)).2 = true ∧ (parse D (dump D v)).1.data = v.data ∧
      dump D (parse D (dump D v)).1 = dump D v := by
  obtain ⟨b, bs, hhead, hspace, -⟩ := serialize_head (D := D) h
  have hws : Parser.ws { p := serialize D v } = { p := serialize D v } := by
    rw [hhead, ws_cons hspace]
  obtain ⟨w, hvalue, hdata, htext⟩ := h.reads (D := D) (4 * (serialize D v).length + 4) []
    (by omega) (by intro b hb; cases hb)
  rw [List.append_nil] at hvalue
  simp only [parse, dump, hws, hvalue]
  exact ⟨rfl, hdata, htext⟩

/-- An object with an escaped key, and integers at both ends of the range. -/
theorem parse_dump_example :
    (Value.obj (F := Unit) [([0x00, quote], .arr [.int true (BitVec.intMin 64), .null]),
      ([0xc3], .int false (BitVec.allOnes 64))]).Exact ∧
    (parse ⟨fun _ => (), fun _ => []⟩ (dump ⟨fun _ => (), fun _ => []⟩
      (Value.obj [([0x00, quote], .arr [.int true (BitVec.intMin 64), .null]),
        ([0xc3], .int false (BitVec.allOnes 64))]))).2 = true := by
  have h : (Value.obj (F := Unit) [([0x00, quote], .arr [.int true (BitVec.intMin 64), .null]),
      ([0xc3], .int false (BitVec.allOnes 64))]).Exact := by
    apply Value.Exact.obj
    · simp only [List.pairwise_cons, List.mem_singleton, forall_eq, List.not_mem_nil,
        false_implies, implies_true, List.Pairwise.nil, and_true]
      decide
    · intro f hf
      simp only [List.mem_cons, List.not_mem_nil, or_false] at hf
      rcases hf with rfl | rfl
      · apply Value.Exact.arr
        intro v hv
        simp only [List.mem_cons, List.not_mem_nil, or_false] at hv
        rcases hv with rfl | rfl
        · exact .int true _
        · exact .null
      · exact .int false _
  exact ⟨h, (parse_dump ⟨fun _ => (), fun _ => []⟩ _ h).1⟩

end Json
