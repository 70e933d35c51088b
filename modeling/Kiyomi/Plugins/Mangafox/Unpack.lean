import Kiyomi.Foundation.Cuts
import Kiyomi.Foundation.Patterns
import Kiyomi.Foundation.Words
import Kiyomi.Go.Strconv

namespace Kiyomi.Plugins.Mangafox

open Go Go.Url Patterns

/-! # Packed scripts -/

def quote : UInt8 := 0x27
def bar : UInt8 := 0x7C
def newline : UInt8 := 0x0A

/-! ## The decoder -/

/-- A byte of `\s`. -/
def isSpace (c : UInt8) : Bool := c ∈ [0x20, 0x09, 0x0A, 0x0C, 0x0D]

/-- A byte of `\w`. -/
def isWord (c : UInt8) : Bool := isAlnum c || c == 0x5F

/-- `(.*?)` -/
def lineText : Piece UInt8 := .many (· ≠ newline) 0 true

/-- `\s*` -/
def blanks : Piece UInt8 := .many isSpace 0 false

/-- `(\d+)` -/
def number : Piece UInt8 := .many isDigit 1 false

/-- `'(.*?)',\s*(\d+),\s*(\d+),\s*'(.*?)'\.split\('\|'\)`. -/
def packedPattern : List (Piece UInt8) :=
  literal [quote] ++ lineText :: literal [quote, comma] ++ blanks :: number :: literal [comma] ++
    blanks :: number :: literal [comma] ++ blanks :: literal [quote] ++
      lineText :: literal (utf8 "'.split('|')")

/-- A word that `\b[0-9a-zA-Z]+\b` matches. -/
def isToken (word : List UInt8) : Bool := word ≠ [] && word.all isAlnum

/-- `ReplaceAllStringFunc`: where the pattern of tokens matches, it matches a whole word. -/
def replaceTokens (f : List UInt8 → List UInt8) (s : List UInt8) : List UInt8 :=
  Words.replace isWord (fun word => if isToken word then f word else word) s

def tokens (s : List UInt8) : List (List UInt8) := (Words.words isWord s).filter isToken

/-- The word of an index, or the token where that is empty or missing. -/
def wordOr (keywords : List (List UInt8)) (token : List UInt8) (index : Nat) : List UInt8 :=
  match keywords[index]? with
  | some word => if word = [] then token else word
  | none => token

def unpackToken (radix : Nat) (keywords : List (List UInt8)) (token : List UInt8) : List UInt8 :=
  match Strconv.parseInt radix token with
  | none => token
  | some val => if val < 0 then token else wordOr keywords token val.toNat

def unpackDeanEdwardsPacker (js : List UInt8) : List UInt8 :=
  match find packedPattern js with
  | none => js
  | some texts =>
      let p := texts.getD 1 []
      -- A number that `Atoi` refuses is above every base, and so is what it returns.
      let radix := ((Strconv.atoi (texts.getD 5 [])).getD maxInt).toNat
      let keywords := (texts.getD 12 []).splitOn bar
      replaceTokens (unpackToken radix keywords) p

/-! ## The packer -/

/-- The digits of the packer. -/
def packerDigit (digit : Nat) : UInt8 :=
  if digit < 10 then 0x30 + digit.toUInt8
  else if digit < 36 then 0x61 + (digit - 10).toUInt8
  else 0x41 + (digit - 36).toUInt8

def encodeFrom (radix : Nat) : Nat → Nat → List UInt8
  | 0, _ => []
  | fuel + 1, index =>
      (if index < radix then [] else encodeFrom radix fuel (index / radix)) ++
        [packerDigit (index % radix)]

/-- The packer's encoding of an index. -/
def encode (radix index : Nat) : List UInt8 := encodeFrom radix (index + 1) index

/-- `('template',radix,count,'w0|w1|...'.split('|'))`. -/
def packerCall (template : List UInt8) (radix : Nat) (words : List (List UInt8)) : List UInt8 :=
  utf8 "('" ++ template ++ utf8 "'," ++ encode 10 radix ++ comma :: encode 10 words.length ++
    utf8 ",'" ++ [bar].intercalate words ++ utf8 "'.split('|'))"

/-- The word that a token of the packer stands for. -/
def packerToken (radix : Nat) (words : List (List UInt8)) (token : List UInt8) : List UInt8 :=
  match (List.range words.length).find? (encode radix · = token) with
  | none => token
  | some index => wordOr words token index

/-- What the packer has packed. -/
def packed (template : List UInt8) (radix : Nat) (words : List (List UInt8)) : List UInt8 :=
  replaceTokens (packerToken radix words) template

/-! ## Numerals of the packer -/

variable {radix index i : Nat} {template token word : List UInt8} {words : List (List UInt8)}

theorem foldlM_encodeFrom {step : Nat → UInt8 → Option Nat} (positive : 2 ≤ radix)
    (digit : ∀ value d, d < radix → step value (packerDigit d) = some (radix * value + d))
    {fuel : Nat} (enough : index < fuel) :
    (encodeFrom radix fuel index).foldlM step 0 = some index := by
  induction fuel generalizing index with
  | zero => contradiction
  | succ fuel induction =>
      have last := digit (index / radix) (index % radix) (Nat.mod_lt _ (by omega))
      rw [Nat.div_add_mod] at last
      have single (value : Nat) (c : UInt8) : [c].foldlM step value = step value c := by
        rw [List.foldlM_cons]
        exact bind_pure _
      rw [encodeFrom, List.foldlM_append]
      by_cases small : index < radix
      · rw [Nat.div_eq_of_lt small] at last
        rw [if_pos small]
        exact (single 0 _).trans last
      · have smaller : index / radix < index := Nat.div_lt_self (by omega) positive
        rw [if_neg small, induction (by omega)]
        exact (single _ _).trans last

/-- The digit that a byte is. -/
def digitIndex (c : UInt8) : Nat :=
  if c ≤ 0x39 then c.toNat - 0x30
  else if 0x61 ≤ c then c.toNat - 0x61 + 10
  else c.toNat - 0x41 + 36

theorem digitIndex_packerDigit : ∀ d < 62, digitIndex (packerDigit d) = d := by decide

theorem digitValue_packerDigit : ∀ d < 36, Strconv.digitValue (packerDigit d) = some d := by
  decide

theorem isAlnum_packerDigit : ∀ d < 62, isAlnum (packerDigit d) = true := by decide

theorem isDigit_packerDigit : ∀ d < 10, isDigit (packerDigit d) = true := by decide

theorem encode_injective (low : 2 ≤ radix) (high : radix ≤ 62)
    (same : encode radix index = encode radix i) : index = i := by
  have decode (n : Nat) : (encode radix n).foldlM
      (fun value c => some (radix * value + digitIndex c)) 0 = some n :=
    foldlM_encodeFrom low (fun value d small => by rw [digitIndex_packerDigit d (by omega)])
      (Nat.lt_succ_self n)
  have equal := decode index
  rw [same, decode i] at equal
  exact (Option.some.inj equal).symm

theorem forall_encodeFrom {p : UInt8 → Bool} (positive : 0 < radix)
    (digits : ∀ d < radix, p (packerDigit d) = true) (fuel index : Nat) :
    (encodeFrom radix fuel index).all p = true := by
  induction fuel generalizing index with
  | zero => rfl
  | succ fuel induction =>
      rw [encodeFrom, List.all_append, List.all_cons,
        digits (index % radix) (Nat.mod_lt _ positive)]
      split
      · rfl
      · rw [induction]
        rfl

theorem encode_ne_nil (radix index : Nat) : encode radix index ≠ [] :=
  List.append_ne_nil_of_right_ne_nil _ (List.cons_ne_nil _ _)

theorem isAlnum_encode (low : 2 ≤ radix) (high : radix ≤ 62) (index : Nat) :
    (encode radix index).all isAlnum = true :=
  forall_encodeFrom (by omega) (fun d small => isAlnum_packerDigit d (by omega)) _ _

theorem isDigit_encode (index : Nat) : (encode 10 index).all isDigit = true :=
  forall_encodeFrom (by decide) isDigit_packerDigit _ _

/-- Up to base 36 `strconv` reads the numerals of the packer. -/
theorem parseIntIn_encode (low : 2 ≤ radix) (high : radix ≤ 36) (small : (index : Int) ≤ maxInt) :
    Strconv.parseIntIn radix (encode radix index) = some (index : Int) := by
  refine Strconv.parseIntIn_of_digits (isAlnum_encode low (by omega) index) ?_ small
  rw [Strconv.digitsValue, if_neg (encode_ne_nil _ _)]
  refine foldlM_encodeFrom low (fun value d digit => ?_) (Nat.lt_succ_self index)
  rw [Strconv.addDigit, digitValue_packerDigit d (by omega), Option.bind_some, if_pos digit]

theorem parseInt_encode (low : 2 ≤ radix) (high : radix ≤ 36) (small : (index : Int) ≤ maxInt) :
    Strconv.parseInt radix (encode radix index) = some (index : Int) := by
  rw [Strconv.parseInt, if_pos ⟨low, high⟩]
  exact parseIntIn_encode low high small

theorem parseInt_of_large (large : 36 < radix) (s : List UInt8) :
    Strconv.parseInt radix s = none := by
  rw [Strconv.parseInt, if_neg (by omega), if_neg (by omega)]

theorem atoi_encode (small : (index : Int) ≤ maxInt) :
    Strconv.atoi (encode 10 index) = some (index : Int) :=
  parseIntIn_encode (by decide) (by decide) small

/-! ## Other numerals of an index -/

/-- A token in lower case, without its leading zeros. -/
def canonical : List UInt8 → List UInt8
  | [] => [0x30]
  | c :: token => if c = 0x30 then canonical token else (c :: token).map toLower

theorem forall_bytes {p : UInt8 → Prop} (all : ∀ n < 256, p (UInt8.ofNat n)) (c : UInt8) : p c := by
  simpa using all c.toNat c.toNat_lt

theorem digitValue_toLower (c : UInt8) : Strconv.digitValue (toLower c) = Strconv.digitValue c :=
  forall_bytes (p := fun c => Strconv.digitValue (toLower c) = Strconv.digitValue c)
    (by decide +kernel) c

theorem packerDigit_digitValue (c : UInt8) :
    ∀ d ∈ Strconv.digitValue c, packerDigit d = toLower c ∧ (d = 0 ↔ c = 0x30) :=
  forall_bytes (p := fun c => ∀ d ∈ Strconv.digitValue c,
    packerDigit d = toLower c ∧ (d = 0 ↔ c = 0x30)) (by decide +kernel) c

theorem encodeFrom_eq (low : 2 ≤ radix) {fuel fuel' : Nat} (enough : index < fuel)
    (enough' : index < fuel') : encodeFrom radix fuel index = encodeFrom radix fuel' index := by
  induction fuel generalizing index fuel' with
  | zero => contradiction
  | succ fuel induction =>
      cases fuel' with
      | zero => contradiction
      | succ fuel' =>
          rw [encodeFrom, encodeFrom]
          split
          · rfl
          · have smaller : index / radix < index := Nat.div_lt_self (by omega) low
            have same : encodeFrom radix fuel (index / radix) =
                encodeFrom radix fuel' (index / radix) := induction (by omega) (by omega)
            rw [same]

theorem encode_of_lt (small : index < radix) : encode radix index = [packerDigit index] := by
  rw [encode, encodeFrom, if_pos small, Nat.mod_eq_of_lt small, List.nil_append]

theorem encode_mul_add (low : 2 ≤ radix) (positive : 0 < index) {d : Nat} (digit : d < radix) :
    encode radix (radix * index + d) = encode radix index ++ [packerDigit d] := by
  have large : ¬radix * index + d < radix := by
    have := Nat.mul_le_mul_left radix positive
    omega
  have less : index < radix * index + d := by
    have := Nat.mul_le_mul_right index low
    omega
  rw [encode, encodeFrom, if_neg large, Nat.mul_add_div (by omega), Nat.div_eq_of_lt digit,
    Nat.add_zero, Nat.mul_add_mod, Nat.mod_eq_of_lt digit, encode,
    encodeFrom_eq low less (Nat.lt_succ_self index)]

theorem addDigit_eq_some_iff {value next : Nat} {c : UInt8} :
    Strconv.addDigit radix value c = some next ↔
      ∃ d, Strconv.digitValue c = some d ∧ d < radix ∧ radix * value + d = next := by
  rw [Strconv.addDigit, Option.bind_eq_some_iff]
  simp

/-- Digits are read so that the packer writes them again, in lower case. -/
theorem encode_foldlM (low : 2 ≤ radix) {value : Nat} (positive : 0 < index)
    (read : token.foldlM (Strconv.addDigit radix) index = some value) :
    encode radix value = encode radix index ++ token.map toLower := by
  induction token generalizing index with
  | nil =>
      cases read
      rw [List.map_nil, List.append_nil]
  | cons c token induction =>
      rw [List.foldlM_cons] at read
      rcases Option.bind_eq_some_iff.mp read with ⟨next, isNext, rest⟩
      rcases addDigit_eq_some_iff.mp isNext with ⟨d, isDigit, digit, rfl⟩
      rw [induction (Nat.add_pos_left (Nat.mul_pos (by omega) positive) d) rest,
        encode_mul_add low positive digit, (packerDigit_digitValue c d isDigit).1, List.map_cons,
        List.append_assoc, List.singleton_append]

theorem encode_eq_canonical (low : 2 ≤ radix) {value : Nat}
    (read : token.foldlM (Strconv.addDigit radix) 0 = some value) :
    encode radix value = canonical token := by
  induction token with
  | nil =>
      cases read
      exact encode_of_lt (by omega)
  | cons c token induction =>
      rw [List.foldlM_cons] at read
      rcases Option.bind_eq_some_iff.mp read with ⟨next, isNext, rest⟩
      rcases addDigit_eq_some_iff.mp isNext with ⟨d, isDigit, digit, rfl⟩
      rcases packerDigit_digitValue c d isDigit with ⟨same, zero⟩
      rw [Nat.mul_zero, Nat.zero_add] at rest
      rw [canonical]
      split
      · rename_i isZero
        rw [zero.mpr isZero] at rest
        exact induction rest
      · rename_i other
        have positive : 0 < d := Nat.pos_of_ne_zero fun isZero => other (zero.mp isZero)
        rw [encode_foldlM low positive rest, encode_of_lt digit, same]
        rfl

theorem foldlM_canonical (positive : 0 < radix) (token : List UInt8) :
    (canonical token).foldlM (Strconv.addDigit radix) 0 =
      token.foldlM (Strconv.addDigit radix) 0 := by
  have zero : Strconv.addDigit radix 0 0x30 = some 0 :=
    addDigit_eq_some_iff.mpr ⟨0, by decide, positive, rfl⟩
  induction token with
  | nil =>
      rw [canonical, List.foldlM_cons, zero]
      rfl
  | cons c token induction =>
      rw [canonical]
      split
      · rename_i isZero
        rw [induction, isZero, List.foldlM_cons, zero]
        rfl
      · rw [List.foldlM_map]
        congr 1
        funext value c
        rw [Strconv.addDigit, Strconv.addDigit, digitValue_toLower]

/-- Up to base 36 the number of a token is the index of its canonical form. -/
theorem parseInt_eq_some_iff (low : 2 ≤ radix) (high : radix ≤ 36) (isOne : isToken token = true)
    (small : (index : Int) ≤ maxInt) :
    Strconv.parseInt radix token = some (index : Int) ↔ encode radix index = canonical token := by
  rw [isToken, Bool.and_eq_true] at isOne
  have nonempty : token ≠ [] := of_decide_eq_true isOne.1
  have read : Strconv.digitsValue radix token = token.foldlM (Strconv.addDigit radix) 0 :=
    if_neg nonempty
  rw [Strconv.parseInt, if_pos ⟨low, high⟩]
  constructor
  · intro parsed
    rw [Strconv.parseIntIn, Strconv.cutSign_of_alnum isOne.2] at parsed
    rcases Option.bind_eq_some_iff.mp parsed with ⟨value, isValue, isIndex⟩
    rw [if_neg Bool.false_ne_true] at isIndex
    have same : value = index := by
      split at isIndex
      · exact Int.ofNat.inj (Option.some.inj isIndex)
      · contradiction
    rw [← same]
    exact encode_eq_canonical low (read.symm.trans isValue)
  · intro isCanonical
    refine Strconv.parseIntIn_of_digits isOne.2 ?_ small
    rw [read, ← foldlM_canonical (by omega) token, ← isCanonical]
    refine foldlM_encodeFrom low (fun value d digit => ?_) (Nat.lt_succ_self index)
    exact addDigit_eq_some_iff.mpr ⟨d, digitValue_packerDigit d (by omega), digit, rfl⟩

/-! ## Tokens -/

theorem wordOr_of_some (isWord : words[index]? = some word) (nonempty : word ≠ []) :
    wordOr words token index = word := by
  rw [wordOr, isWord]
  exact if_neg nonempty

theorem wordOr_cases (words : List (List UInt8)) (token : List UInt8) (index : Nat) :
    wordOr words token index = token ∨
      words[index]? = some (wordOr words token index) ∧ wordOr words token index ≠ [] := by
  rw [wordOr]
  split
  · rename_i word isWord
    split
    · exact .inl rfl
    · rename_i nonempty
      exact .inr ⟨isWord, nonempty⟩
  · exact .inl rfl

theorem packerToken_cases (radix : Nat) (words : List (List UInt8)) (token : List UInt8) :
    packerToken radix words token = token ∨ ∃ index, encode radix index = token ∧
      words[index]? = some (packerToken radix words token) ∧
        packerToken radix words token ≠ [] := by
  rw [packerToken]
  split
  · exact .inl rfl
  · rename_i index found
    have isEncoding : encode radix index = token := by simpa using List.find?_some found
    exact (wordOr_cases words token index).imp_right fun both => ⟨index, isEncoding, both⟩

theorem packerToken_encode (low : 2 ≤ radix) (high : radix ≤ 62)
    (isEncoding : encode radix index = token) (isWord : words[index]? = some word)
    (nonempty : word ≠ []) : packerToken radix words token = word := by
  have inside : index < words.length := (List.getElem?_eq_some_iff.mp isWord).1
  rcases Option.isSome_iff_exists.mp (List.find?_isSome (p := (encode radix · = token)).mpr
    ⟨index, List.mem_range.mpr inside, by simpa using isEncoding⟩) with ⟨first, found⟩
  have isFirst : encode radix first = token := by simpa using List.find?_some found
  have same : first = index := encode_injective low high (isFirst.trans isEncoding.symm)
  rw [packerToken, found, same]
  exact wordOr_of_some isWord nonempty

theorem unpackToken_cases (radix : Nat) (words : List (List UInt8)) (token : List UInt8) :
    unpackToken radix words token = token ∨
      ∃ index : Nat, Strconv.parseInt radix token = some (index : Int) ∧
        words[index]? = some (unpackToken radix words token) ∧
          unpackToken radix words token ≠ [] := by
  rw [unpackToken]
  split
  · exact .inl rfl
  · rename_i val parsed
    split
    · exact .inl rfl
    · rename_i nonneg
      have value : (val.toNat : Int) = val := Int.toNat_of_nonneg (Int.not_lt.mp nonneg)
      refine (wordOr_cases words token val.toNat).imp_right fun both => ⟨val.toNat, ?_, both⟩
      rw [value, parsed]

theorem unpackToken_parse (parsed : Strconv.parseInt radix token = some (index : Int))
    (isWord : words[index]? = some word) (nonempty : word ≠ []) :
    unpackToken radix words token = word := by
  rw [unpackToken, parsed]
  dsimp only
  rw [if_neg (Int.not_lt.mpr (Int.natCast_nonneg index)), Int.toNat_natCast]
  exact wordOr_of_some isWord nonempty

/-- The token is read as the number of a word exactly where it is the packer's numeral of it. -/
def ReadAlike (radix : Nat) (words : List (List UInt8)) (token : List UInt8) : Prop :=
  ∀ (index : Nat) (word : List UInt8), words[index]? = some word → word ≠ [] → word ≠ token →
    (Strconv.parseInt radix token = some (index : Int) ↔ encode radix index = token)

theorem small_index (isWord : words[index]? = some word) (small : words.length ≤ maxInt) :
    (index : Int) ≤ maxInt := by
  have inside : index < words.length := (List.getElem?_eq_some_iff.mp isWord).1
  omega

theorem unpackToken_eq_iff (low : 2 ≤ radix) (high : radix ≤ 62) (small : words.length ≤ maxInt) :
    unpackToken radix words token = packerToken radix words token ↔
      ReadAlike radix words token := by
  constructor
  · intro same index word isWord nonempty different
    constructor
    · intro parsed
      have isResult := unpackToken_parse parsed isWord nonempty
      rw [same] at isResult
      rcases packerToken_cases radix words token with kept | ⟨other, isEncoding, isOther, _⟩
      · exact absurd (isResult.symm.trans kept) different
      · by_cases decimal : radix ≤ 36
        · have read := parseInt_encode low decimal (small_index isOther small)
          rw [isEncoding, parsed, Option.some.injEq, Int.natCast_inj] at read
          rw [read, isEncoding]
        · rw [parseInt_of_large (Nat.not_le.mp decimal)] at parsed
          contradiction
    · intro isEncoding
      have isResult := packerToken_encode low high isEncoding isWord nonempty
      rw [← same] at isResult
      rcases unpackToken_cases radix words token with kept | ⟨other, parsed, _⟩
      · exact absurd (isResult.symm.trans kept) different
      · by_cases decimal : radix ≤ 36
        · rw [← isEncoding]
          exact parseInt_encode low decimal (small_index isWord small)
        · rw [parseInt_of_large (Nat.not_le.mp decimal)] at parsed
          contradiction
  · intro alike
    by_cases kept : unpackToken radix words token = token
    · rcases packerToken_cases radix words token with
        keptToo | ⟨index, isEncoding, isWord, some_word⟩
      · rw [kept, keptToo]
      · by_contra different
        rw [kept] at different
        have parsed := (alike index _ isWord some_word (Ne.symm different)).mpr isEncoding
        exact different (kept.symm.trans (unpackToken_parse parsed isWord some_word))
    · rcases unpackToken_cases radix words token with keptToo | ⟨index, parsed, isWord, nonempty⟩
      · exact absurd keptToo kept
      · have isEncoding := (alike index _ isWord nonempty kept).mp parsed
        exact (packerToken_encode low high isEncoding isWord nonempty).symm

/-- The token is no other numeral of a word: up to base 36 none in upper case or with leading
zeros, and above that none at all. -/
def Unambiguous (radix : Nat) (words : List (List UInt8)) (token : List UInt8) : Prop :=
  ∀ (index : Nat) (word : List UInt8), words[index]? = some word → word ≠ [] → word ≠ token →
    if radix ≤ 36 then encode radix index = canonical token → canonical token = token
    else encode radix index ≠ token

theorem readAlike_iff (low : 2 ≤ radix) (small : words.length ≤ maxInt)
    (isOne : isToken token = true) :
    ReadAlike radix words token ↔ Unambiguous radix words token := by
  refine forall₂_congr fun index word => forall_congr' fun isWord => ?_
  refine forall_congr' fun _ => forall_congr' fun _ => ?_
  have bound := small_index isWord small
  split
  · rename_i decimal
    rw [parseInt_eq_some_iff low decimal isOne bound]
    constructor
    · intro alike isCanonical
      exact isCanonical.symm.trans (alike.mp isCanonical)
    · intro plain
      refine ⟨fun isCanonical => isCanonical.trans (plain isCanonical), fun isEncoding => ?_⟩
      have parsed := parseInt_encode low decimal bound
      rw [isEncoding] at parsed
      exact (parseInt_eq_some_iff low decimal isOne bound).mp parsed
  · rename_i large
    rw [parseInt_of_large (Nat.not_le.mp large)]
    simp

/-- At every token at which they differ, one of the two keeps it. -/
theorem kept_of_radix (low : 2 ≤ radix) (small : words.length ≤ maxInt) :
    (∀ token, unpackToken radix words token = packerToken radix words token ∨
        packerToken radix words token = token) ∨
      ∀ token, packerToken radix words token = unpackToken radix words token ∨
        unpackToken radix words token = token := by
  by_cases decimal : radix ≤ 36
  · refine .inl fun token => ?_
    rcases packerToken_cases radix words token with kept | ⟨index, isEncoding, isWord, nonempty⟩
    · exact .inr kept
    · have parsed := parseInt_encode low decimal (small_index isWord small)
      rw [isEncoding] at parsed
      exact .inl (unpackToken_parse parsed isWord nonempty)
  · refine .inr fun token => .inr ?_
    rw [unpackToken, parseInt_of_large (Nat.not_le.mp decimal)]

theorem mem_tokens {s : List UInt8} :
    token ∈ tokens s ↔ token ∈ Words.words isWord s ∧ isToken token = true := List.mem_filter

theorem replaceTokens_eq_iff {f g : List UInt8 → List UInt8} {s : List UInt8}
    (kept : ∀ token, f token = g token ∨ g token = token) :
    replaceTokens f s = replaceTokens g s ↔ ∀ token ∈ tokens s, f token = g token := by
  rw [replaceTokens, replaceTokens, Words.replace_eq_iff]
  · constructor
    · intro same token member
      rcases mem_tokens.mp member with ⟨inWords, isOne⟩
      have equal := same token inWords
      rwa [if_pos isOne, if_pos isOne] at equal
    · intro same word member
      split
      · rename_i isOne
        exact same word (mem_tokens.mpr ⟨member, isOne⟩)
      · rfl
  · intro word _
    split
    · exact kept word
    · exact .inl rfl

theorem replaceTokens_unpack_iff (low : 2 ≤ radix) (high : radix ≤ 62)
    (small : words.length ≤ maxInt) :
    replaceTokens (unpackToken radix words) template = packed template radix words ↔
      ∀ token ∈ tokens template, Unambiguous radix words token := by
  have each : (∀ token ∈ tokens template,
      unpackToken radix words token = packerToken radix words token) ↔
        ∀ token ∈ tokens template, Unambiguous radix words token :=
    forall₂_congr fun token member => (unpackToken_eq_iff low high small).trans
      (readAlike_iff low small (mem_tokens.mp member).2)
  rw [packed, ← each]
  rcases kept_of_radix low small with kept | kept
  · exact replaceTokens_eq_iff kept
  · rw [eq_comm, replaceTokens_eq_iff kept]
    exact forall₂_congr fun token _ => eq_comm

/-! ## Matching a call -/

theorem packedPattern_eq : packedPattern =
    .one (· = quote) :: .many (· ≠ newline) 0 true :: .one (· = quote) :: .one (· = comma) ::
      .many isSpace 0 false :: .many isDigit 1 false :: .one (· = comma) ::
        .many isSpace 0 false :: .many isDigit 1 false :: .one (· = comma) ::
          .many isSpace 0 false :: .one (· = quote) :: .many (· ≠ newline) 0 true ::
            literal (utf8 "'.split('|')") := rfl

/-- The texts of a match. -/
structure PackedTexts (texts : List (List UInt8)) (p radixText k : List UInt8) : Prop where
  line : newline ∉ p
  radix : radixText.all isDigit = true
  words : newline ∉ k
  parts : ∃ s₁ s₂ count s₃ rest,
    texts = [quote] :: p :: [quote] :: [comma] :: s₁ :: radixText :: [comma] :: s₂ :: count ::
      [comma] :: s₃ :: [quote] :: k :: rest ∧
    rest.flatten = utf8 "'.split('|')" ∧ s₁.all isSpace = true ∧ s₂.all isSpace = true ∧
      count.all isDigit = true ∧ s₃.all isSpace = true

theorem packedTexts_of_matches {texts : List (List UInt8)}
    (matching : List.Forall₂ Piece.Matches packedPattern texts) :
    ∃ p radixText k, PackedTexts texts p radixText k := by
  rw [packedPattern_eq] at matching
  simp only [matches_one, matches_many] at matching
  rcases matching with ⟨_, rfl, p, _, rfl, ⟨_, line⟩, _, rfl, _, rfl, s₁, _, rfl, ⟨_, isS₁⟩,
    radixText, _, rfl, ⟨_, isRadix⟩, _, rfl, s₂, _, rfl, ⟨_, isS₂⟩, count, _, rfl, ⟨_, isCount⟩,
    _, rfl, s₃, _, rfl, ⟨_, isS₃⟩, _, rfl, k, rest, rfl, ⟨_, words⟩, ending⟩
  refine ⟨p, radixText, k, fun member => ?_, List.all_eq_true.mpr isRadix, fun member => ?_,
    s₁, s₂, count, s₃, rest, rfl, flatten_of_literal ending, List.all_eq_true.mpr isS₁,
    List.all_eq_true.mpr isS₂, List.all_eq_true.mpr isCount, List.all_eq_true.mpr isS₃⟩
  · simpa using line newline member
  · simpa using words newline member

/-- The text of a call between its quotes. -/
theorem packerCall_eq : packerCall template radix words =
    [quote].intercalate [utf8 "(", template,
      comma :: encode 10 radix ++ comma :: encode 10 words.length ++ [comma],
      [bar].intercalate words, utf8 ".split(", [bar], utf8 "))"] := by
  have opening : utf8 "('" = utf8 "(" ++ [quote] := by decide
  have middle : utf8 "'," = [quote, comma] := by decide
  have next : utf8 ",'" = [comma, quote] := by decide
  have ending : utf8 "'.split('|'))" =
      quote :: utf8 ".split(" ++ quote :: bar :: quote :: utf8 "))" := by decide
  rw [packerCall, opening, middle, next, ending]
  simp

theorem flatten_packedTexts {texts : List (List UInt8)} {p radixText k : List UInt8}
    (isMatch : PackedTexts texts p radixText k) (before after : List UInt8) :
    ∃ s₁ s₂ count s₃, s₁.all isSpace = true ∧ s₂.all isSpace = true ∧ count.all isDigit = true ∧
      s₃.all isSpace = true ∧ before ++ texts.flatten ++ after =
        [quote].intercalate [before, p,
          comma :: (s₁ ++ radixText) ++ comma :: (s₂ ++ count) ++ comma :: s₃, k,
          utf8 ".split(", [bar], utf8 ")" ++ after] := by
  rcases isMatch.parts with ⟨s₁, s₂, count, s₃, rest, rfl, isEnding, first, second, digits, third⟩
  have ending : utf8 "'.split('|')" =
      quote :: utf8 ".split(" ++ quote :: bar :: quote :: utf8 ")" := by decide
  refine ⟨s₁, s₂, count, s₃, first, second, digits, third, ?_⟩
  simp only [List.flatten_cons, isEnding, ending]
  simp

theorem not_mem_of_all {c : UInt8} {p : UInt8 → Bool} {s : List UInt8} (all : s.all p = true)
    (other : p c = false) : c ∉ s := by
  intro member
  rw [List.all_eq_true.mp all c member] at other
  contradiction

theorem not_digit_of_space {c : UInt8} (blank : isSpace c = true) : isDigit c = false := by
  have all : ∀ c ∈ ([0x20, 0x09, 0x0A, 0x0C, 0x0D] : List UInt8),
      decide (isDigit c = false) = true := List.all_eq_true.mp (by decide)
  exact of_decide_eq_true (all c (of_decide_eq_true blank))

/-- No other digits than all of them stand before the comma. -/
theorem eq_encode_of_comma {s₁ radixText rest rest' : List UInt8} (blank : s₁.all isSpace = true)
    (digits : radixText.all isDigit = true)
    (same : encode 10 index ++ comma :: rest = s₁ ++ radixText ++ comma :: rest') :
    radixText = encode 10 index := by
  have free : comma ∉ s₁ ++ radixText := by
    rw [List.mem_append, not_or]
    exact ⟨not_mem_of_all blank (by decide), not_mem_of_all digits (by decide)⟩
  have whole := congrArg (Cuts.before comma) same
  rw [Cuts.before_append (not_mem_of_all (isDigit_encode index) (by decide)),
    Cuts.before_append free] at whole
  cases s₁ with
  | nil => exact whole.symm
  | cons c s₁ =>
      have isBlank := List.all_eq_true.mp blank c List.mem_cons_self
      have digit := List.all_eq_true.mp (isDigit_encode index) c
        (whole ▸ List.mem_append_left _ List.mem_cons_self)
      rw [not_digit_of_space isBlank] at digit
      contradiction

theorem not_mem_joined {c : UInt8} (other : c ≠ bar) (free : ∀ word ∈ words, c ∉ word) :
    c ∉ [bar].intercalate words := by
  intro member
  rcases Cuts.mem_intercalate member with isBar | ⟨word, isWord, inWord⟩
  · exact other isBar
  · exact free word isWord inWord

/-- The parts of a call that a match can be made of. -/
theorem parts_of_packerCall {texts : List (List UInt8)} {p radixText k : List UInt8}
    (noQuote : quote ∉ template) (noQuotes : ∀ word ∈ words, quote ∉ word)
    (isMatch : PackedTexts texts p radixText k)
    (inside : texts.flatten <:+: packerCall template radix words) :
    p = template ∧ radixText = encode 10 radix ∧ k = [bar].intercalate words := by
  rcases inside with ⟨before, after, same⟩
  rcases flatten_packedTexts isMatch before after with
    ⟨s₁, s₂, count, s₃, first, second, digits, third, parts⟩
  rw [parts, packerCall_eq] at same
  have digit (index : Nat) : quote ∉ encode 10 index :=
    not_mem_of_all (isDigit_encode index) (by decide)
  have noQuoteNumbers :
      quote ∉ comma :: encode 10 radix ++ comma :: encode 10 words.length ++ [comma] := by
    have other : quote ≠ comma := by decide
    simp [digit, other]
  have free : ∀ part ∈ [utf8 "(", template,
      comma :: encode 10 radix ++ comma :: encode 10 words.length ++ [comma],
      [bar].intercalate words, utf8 ".split(", [bar], utf8 "))"], quote ∉ part :=
    List.forall_mem_cons.mpr ⟨by decide, List.forall_mem_cons.mpr ⟨noQuote,
      List.forall_mem_cons.mpr ⟨noQuoteNumbers, List.forall_mem_cons.mpr
        ⟨not_mem_joined (by decide) noQuotes, List.forall_mem_cons.mpr ⟨by decide,
          List.forall_mem_cons.mpr ⟨by decide, List.forall_mem_singleton.mpr (by decide)⟩⟩⟩⟩⟩⟩
  have equal : [utf8 "(", template,
      comma :: encode 10 radix ++ comma :: encode 10 words.length ++ [comma],
      [bar].intercalate words, utf8 ".split(", [bar], utf8 "))"] =
        [before, p, comma :: (s₁ ++ radixText) ++ comma :: (s₂ ++ count) ++ comma :: s₃, k,
          utf8 ".split(", [bar], utf8 ")" ++ after] :=
    Cuts.eq_of_intercalate (List.cons_ne_nil _ _) (by rfl) free same.symm
  simp only [List.cons.injEq] at equal
  rcases equal with ⟨_, isTemplate, numbers, isJoined, _⟩
  refine ⟨isTemplate.symm, ?_, isJoined.symm⟩
  rw [List.cons_append, List.cons_append, List.cons_append, List.cons_append,
    List.append_assoc (encode 10 radix), List.append_assoc (s₁ ++ radixText)] at numbers
  exact eq_encode_of_comma first isMatch.radix (List.cons.inj numbers).2

/-- Every call without a newline is matched. -/
theorem exists_match (radix : Nat) (oneLine : newline ∉ template)
    (oneLines : newline ∉ [bar].intercalate words) :
    ∃ texts, List.Forall₂ Piece.Matches packedPattern texts ∧
      texts.flatten <:+: packerCall template radix words := by
  have digits (index : Nat) : 1 ≤ (encode 10 index).length ∧
      ∀ c ∈ encode 10 index, isDigit c = true :=
    ⟨List.length_pos_of_ne_nil (encode_ne_nil 10 index), List.all_eq_true.mp (isDigit_encode index)⟩
  have line {s : List UInt8} (free : newline ∉ s) :
      0 ≤ s.length ∧ ∀ c ∈ s, decide (c ≠ newline) = true :=
    ⟨Nat.zero_le _, fun c member => decide_eq_true fun same => free (same ▸ member)⟩
  have blank : 0 ≤ ([] : List UInt8).length ∧ ∀ c ∈ ([] : List UInt8), isSpace c = true :=
    ⟨Nat.le_refl 0, by simp⟩
  have ending := flatten_of_literal (matches_literal (utf8 "'.split('|')"))
  refine ⟨[quote] :: template :: [quote] :: [comma] :: [] :: encode 10 radix :: [comma] :: [] ::
    encode 10 words.length :: [comma] :: [] :: [quote] :: [bar].intercalate words ::
      (utf8 "'.split('|')").map ([·]), ?_, utf8 "(", utf8 ")", ?_⟩
  · rw [packedPattern_eq]
    refine matches_one.mpr ⟨_, rfl, matches_many.mpr ⟨_, _, rfl, line oneLine,
      matches_one.mpr ⟨_, rfl, matches_one.mpr ⟨_, rfl, matches_many.mpr ⟨_, _, rfl, blank,
        matches_many.mpr ⟨_, _, rfl, digits radix, matches_one.mpr ⟨_, rfl, ?_⟩⟩⟩⟩⟩⟩⟩
    exact matches_many.mpr ⟨_, _, rfl, blank, matches_many.mpr ⟨_, _, rfl, digits words.length,
      matches_one.mpr ⟨_, rfl, matches_many.mpr ⟨_, _, rfl, blank, matches_one.mpr ⟨_, rfl,
        matches_many.mpr ⟨_, _, rfl, line oneLines, matches_literal _⟩⟩⟩⟩⟩⟩
  · rw [packerCall_eq]
    simp only [List.flatten_cons, ending]
    have ending : utf8 "'.split('|')" =
        quote :: utf8 ".split(" ++ quote :: bar :: quote :: utf8 ")" := by decide
    have last : utf8 "))" = utf8 ")" ++ utf8 ")" := by decide
    rw [ending, last]
    simp

theorem unpack_of_find {js p radixText k : List UInt8} {texts : List (List UInt8)}
    (isFound : find packedPattern js = some texts) (isMatch : PackedTexts texts p radixText k) :
    unpackDeanEdwardsPacker js = replaceTokens
      (unpackToken ((Strconv.atoi radixText).getD maxInt).toNat (k.splitOn bar)) p := by
  rcases isMatch.parts with ⟨s₁, s₂, count, s₃, rest, rfl, _⟩
  rw [unpackDeanEdwardsPacker, isFound]
  rfl

theorem unpackToken_splitOn (radix : Nat) (plain : ∀ word ∈ words, bar ∉ word) :
    unpackToken radix (([bar].intercalate words).splitOn bar) = unpackToken radix words := by
  by_cases nonempty : words = []
  · subst nonempty
    funext token
    have same (index : Nat) : wordOr [[]] token index = wordOr [] token index := by
      cases index <;> rfl
    rw [unpackToken, unpackToken]
    simp only [List.intercalate_nil, List.splitOn_nil, same]
  · rw [List.splitOn_intercalate bar plain nonempty]

theorem quote_mem_packerCall (template : List UInt8) (radix : Nat) (words : List (List UInt8)) :
    quote ∈ packerCall template radix words := by
  have opening : utf8 "('" = [0x28, quote] := by decide
  rw [packerCall, opening]
  simp

theorem quote_not_mem_packed (noQuote : quote ∉ template)
    (noQuotes : ∀ word ∈ words, quote ∉ word) : quote ∉ packed template radix words := by
  intro member
  rcases Words.mem_replace member with inTemplate | ⟨word, isWord, inWord⟩
  · exact noQuote inTemplate
  · split at inWord
    · rcases packerToken_cases radix words word with kept | ⟨index, _, isResult, _⟩
      · rw [kept] at inWord
        exact noQuote (Words.mem_of_mem_words isWord inWord)
      · exact noQuotes _ (List.mem_of_getElem? isResult) inWord
    · exact noQuote (Words.mem_of_mem_words isWord inWord)

/-- A call is decoded exactly where it has no newline and its template no token that is another
numeral of a word. -/
theorem unpackDeanEdwardsPacker_packerCall_iff (low : 2 ≤ radix) (high : radix ≤ 62)
    (small : words.length ≤ maxInt) (noQuote : quote ∉ template)
    (plain : ∀ word ∈ words, quote ∉ word ∧ bar ∉ word) :
    unpackDeanEdwardsPacker (packerCall template radix words) = packed template radix words ↔
      newline ∉ template ∧ (∀ word ∈ words, newline ∉ word) ∧
        ∀ token ∈ tokens template, Unambiguous radix words token := by
  have noQuotes : ∀ word ∈ words, quote ∉ word := fun word isWord => (plain word isWord).1
  cases isFound : find packedPattern (packerCall template radix words) with
  | none =>
      have unchanged : unpackDeanEdwardsPacker (packerCall template radix words) =
          packerCall template radix words := by
        rw [unpackDeanEdwardsPacker, isFound]
      rw [unchanged]
      constructor
      · intro same
        exact absurd (same ▸ quote_mem_packerCall template radix words)
          (quote_not_mem_packed noQuote noQuotes)
      · rintro ⟨oneLine, oneLines, _⟩
        rcases exists_match radix oneLine (not_mem_joined (by decide) oneLines) with
          ⟨texts, matching, inside⟩
        have some_found := find_complete matching inside
        rw [isFound] at some_found
        contradiction
  | some texts =>
      rcases find_sound isFound with ⟨matching, inside⟩
      rcases packedTexts_of_matches matching with ⟨p, radixText, k, isMatch⟩
      rcases parts_of_packerCall noQuote noQuotes isMatch inside with ⟨rfl, rfl, rfl⟩
      have oneLines : ∀ word ∈ words, newline ∉ word := fun word isWord member =>
        isMatch.words ((Cuts.infix_intercalate isWord).subset member)
      have smallRadix : (radix : Int) ≤ maxInt := by
        have value : maxInt = 2 ^ 63 - 1 := rfl
        omega
      rw [unpack_of_find isFound isMatch, atoi_encode smallRadix, Option.getD_some,
        Int.toNat_natCast, unpackToken_splitOn radix fun word isWord => (plain word isWord).2,
        replaceTokens_unpack_iff low high small]
      exact ⟨fun each => ⟨isMatch.line, oneLines, each⟩, fun all => all.2.2⟩

theorem unpackDeanEdwardsPacker_packerCall_alert :
    unpackDeanEdwardsPacker (utf8 "('0(1)',36,2,'alert|x'.split('|'))") = utf8 "alert(x)" := by
  have isCall : utf8 "('0(1)',36,2,'alert|x'.split('|'))" =
      packerCall (utf8 "0(1)") 36 [utf8 "alert", utf8 "x"] := by decide +kernel
  have isPacked : packed (utf8 "0(1)") 36 [utf8 "alert", utf8 "x"] = utf8 "alert(x)" := by
    decide +kernel
  have isTokens : tokens (utf8 "0(1)") = [utf8 "0", utf8 "1"] := by decide +kernel
  rw [isCall, ← isPacked]
  refine (unpackDeanEdwardsPacker_packerCall_iff (by decide) (by decide) (by decide) (by decide)
    (by decide)).mpr ⟨by decide, by decide, fun token member => ?_⟩
  have same : canonical token = token := by
    rw [isTokens] at member
    rcases List.mem_pair.mp member with rfl | rfl
    · decide
    · decide
  intro index word _ _ _
  rw [if_pos (by decide)]
  exact fun _ => same

/-- No token is read in base 62. -/
theorem base_62_is_kept :
    ¬∀ (template : List UInt8) (radix : Nat) (words : List (List UInt8)), 2 ≤ radix → radix ≤ 62 →
      quote ∉ template → (∀ word ∈ words, quote ∉ word ∧ bar ∉ word) →
        unpackDeanEdwardsPacker (packerCall template radix words) =
          packed template radix words := by
  intro decodes
  have kept : unpackDeanEdwardsPacker (packerCall (utf8 "0(1)") 62 [utf8 "alert", utf8 "x"]) =
      utf8 "0(1)" := by decide +kernel
  have isPacked : packed (utf8 "0(1)") 62 [utf8 "alert", utf8 "x"] = utf8 "alert(x)" := by
    decide +kernel
  have same := decodes (utf8 "0(1)") 62 [utf8 "alert", utf8 "x"] (by decide) (by decide)
    (by decide) (by decide)
  rw [kept, isPacked] at same
  exact absurd same (by decide)

end Kiyomi.Plugins.Mangafox
