import QNode.Buffer.Concat

/-!
# Conversions that fail

The methods convert their arguments with `JS_ToInt64` and do not look at its result.  An exception
of the conversion is left pending while the method goes on with the number 0; it is lost when the
method returns a value or throws an error of its own.
-/

open QNode.Engine Word

namespace QNode.Buffer

/-- The calls that convert arguments or elements to numbers. -/
inductive NumericCall
  | fromArray (elements : List JsArg)
  | fromArrayBuffer (buffer : Nat) (argv : List JsArg)
  | concat (list : JsArray) (totalLength : JsArg)
  | toString (this : JsArg) (argv : List JsArg)
  | slice (this : JsArg) (argv : List JsArg)
  | subarray (this : JsArg) (argv : List JsArg)
  | write (this : JsArg) (argv : List JsArg)
  | copy (this : JsArg) (argv : List JsArg)
  | readUInt (magic : Nat) (this : JsArg) (argv : List JsArg)
  | writeUInt (magic : Nat) (this : JsArg) (argv : List JsArg)

inductive Returned
  | bytes (content : List UInt8)
  | buffer (buf : NewBuffer)
  | text (s : JsString)
  | number (n : Int)
  | this

/-- How a call ends for its caller: `threwUser` is with the exception of a conversion. -/
inductive Completion
  | returned (value : Returned)
  | threw (error : JsError)
  | threwUser
  | aborted

/-- A value that is returned is a normal return even with an exception pending, and an error that is
thrown replaces the pending one. -/
def Completion.ofOutcome : Outcome Returned → Completion
  | .ok value => .returned value
  | .throw error => .threw error
  | .abort => .aborted

/-! ## Conversions -/

/-- Whether the conversion of an argument throws. -/
def JsArg.throws (heap : Heap) : JsArg → Bool
  | .object _ valueOf => (valueOf heap).2.isNone
  | _ => false

/-- `if (!JS_IsUndefined(arg))` -/
def given (arg : JsArg) : List JsArg := if arg.isUndefined then [] else [arg]

/-- The heap after a list of conversions. -/
def afterAll (heap : Heap) (args : List JsArg) : Heap :=
  args.foldl (fun heap arg ↦ (jsToInt64 heap arg).2) heap

/-- The heap in which the first conversion that throws leaves off. -/
def heapAtThrow (heap : Heap) : List JsArg → Option Heap
  | [] => none
  | arg :: rest =>
    if arg.throws heap then some (jsToInt64 heap arg).2
    else heapAtThrow (jsToInt64 heap arg).2 rest

namespace NumericCall

def run (heap : Heap) : NumericCall → Ran Returned
  | fromArray elements => (jsBufferFromArray heap elements).map .bytes
  | fromArrayBuffer buffer argv =>
    (jsBufferFromArrayBuffer heap buffer argv).map fun v ↦ .buffer (.view v)
  | concat list totalLength => (jsBufferConcat heap list totalLength).map .bytes
  | toString this argv => (jsBufferToString heap this argv).map .text
  | slice this argv => (jsBufferSlice heap this argv).map .bytes
  | subarray this argv => (jsBufferSubarray heap this argv).map .buffer
  | write this argv => (jsBufferWrite heap this argv).map .number
  | copy this argv => (jsBufferCopy heap this argv).map .number
  | readUInt magic this argv =>
    (jsBufferReadUInt (magic >>> 4) (magic &&& 1 ≠ 0) heap this argv).map .number
  | writeUInt magic this argv =>
    (jsBufferWriteUInt (magic >>> 4) (magic &&& 1 ≠ 0) heap this argv).map fun _ ↦ .this

/-- The arguments that a call converts, in this order. -/
def conversions (heap : Heap) : NumericCall → List JsArg
  | fromArray elements =>
    if elements.length ≤ maxByteLength then elements.flatMap given else []
  | fromArrayBuffer buffer argv =>
    if (heap buffer).detached then [] else given (argAt argv 1) ++ given (argAt argv 2)
  | concat list totalLength => if list.elements.length = 0 then [] else given totalLength
  | toString this argv =>
    if (jsBufferGetBytes heap this).isSome then given (argAt argv 1) ++ given (argAt argv 2) else []
  | slice this argv =>
    if (jsBufferGetBytes heap this).isSome then
      (if argv.length ≥ 1 ∧ ¬ (argAt argv 1).isUndefined then [argAt argv 0] else []) ++
        given (argAt argv 1)
    else []
  | subarray this argv =>
    if (jsGetTypedArrayBuffer heap this).isSome then
      given (argAt argv 0) ++ given (argAt argv 1)
    else []
  | write this argv =>
    match argAt argv 0 with
    | .string text _ =>
      match jsBufferStringToBytes (jsToCStringLen text) (encodingOf (argAt argv 3)) with
      | .ok (some _) =>
        if (jsBufferGetBytes heap this).isSome then given (argAt argv 1) ++ given (argAt argv 2)
        else []
      | _ => []
    | _ => []
  | copy this argv =>
    if (jsBufferGetBytes heap this).isSome ∧ (jsBufferGetBytes heap (argAt argv 0)).isSome then
      given (argAt argv 1) ++ given (argAt argv 2) ++ given (argAt argv 3)
    else []
  | readUInt _ this argv =>
    if (jsBufferGetBytes heap this).isSome then given (argAt argv 0) else []
  | writeUInt _ this argv =>
    if (jsBufferGetBytes heap this).isSome ∧ 2 ≤ argv.length then [argAt argv 0, argAt argv 1]
    else []

def completion (heap : Heap) (call : NumericCall) : Completion :=
  .ofOutcome (call.run heap).result

/-- A conversion that throws ends the call with its exception, and the call changes nothing. -/
def Propagates (heap : Heap) (call : NumericCall) : Prop :=
  ∀ heap', heapAtThrow heap (call.conversions heap) = some heap' →
    call.completion heap = .threwUser ∧ (call.run heap).heap = heap'

end NumericCall

/-! ## Arguments that answer 0 -/

/-- The argument with a conversion that answers 0 where it threw. -/
def JsArg.defaulted : JsArg → JsArg
  | .object view valueOf =>
    .object view fun heap ↦ ((valueOf heap).1, some ((valueOf heap).2.getD 0))
  | arg => arg

namespace JsArg

@[simp] theorem isUndefined_defaulted (arg : JsArg) : arg.defaulted.isUndefined = arg.isUndefined := by
  cases arg <;> rfl

@[simp] theorem encodingOf_defaulted (arg : JsArg) : encodingOf arg.defaulted = encodingOf arg := by
  cases arg <;> rfl

@[simp] theorem jsToInt64_defaulted (heap : Heap) (arg : JsArg) :
    jsToInt64 heap arg.defaulted = jsToInt64 heap arg := by
  cases arg with
  | object view valueOf =>
    show (((some ((valueOf heap).2.getD 0)).map Int64.toInt).getD 0, _) = _
    rw [jsToInt64]
    cases (valueOf heap).2 <;> rfl
  | undefined | number | string => rfl

@[simp] theorem jsToInt64Or_defaulted (heap : Heap) (arg : JsArg) (default : Int) :
    jsToInt64Or heap arg.defaulted default = jsToInt64Or heap arg default := by
  rw [jsToInt64Or, jsToInt64Or, isUndefined_defaulted, jsToInt64_defaulted]

@[simp] theorem getBytes_defaulted (heap : Heap) (arg : JsArg) :
    jsBufferGetBytes heap arg.defaulted = jsBufferGetBytes heap arg := by
  cases arg <;> rfl

@[simp] theorem argAt_defaulted (argv : List JsArg) (i : Nat) :
    argAt (argv.map defaulted) i = (argAt argv i).defaulted := by
  rw [argAt, argAt, List.getD_eq_getElem?_getD, List.getD_eq_getElem?_getD, List.getElem?_map]
  cases argv[i]? <;> rfl

end JsArg

theorem fromElements_defaulted (heap : Heap) (elements : List JsArg) :
    fromElements heap (elements.map JsArg.defaulted) = fromElements heap elements := by
  induction elements generalizing heap with
  | nil => rfl
  | cons v rest ih =>
    rw [List.map_cons, fromElements, fromElements, JsArg.jsToInt64Or_defaulted]
    simp only [ih]

namespace NumericCall

/-- The call with arguments that answer 0 where they threw. -/
def defaulted : NumericCall → NumericCall
  | fromArray elements => fromArray (elements.map JsArg.defaulted)
  | fromArrayBuffer buffer argv => fromArrayBuffer buffer (argv.map JsArg.defaulted)
  | concat list totalLength => concat list totalLength.defaulted
  | toString this argv => toString this (argv.map JsArg.defaulted)
  | slice this argv => slice this (argv.map JsArg.defaulted)
  | subarray this argv => subarray this (argv.map JsArg.defaulted)
  | write this argv => write this (argv.map JsArg.defaulted)
  | copy this argv => copy this (argv.map JsArg.defaulted)
  | readUInt magic this argv => readUInt magic this (argv.map JsArg.defaulted)
  | writeUInt magic this argv => writeUInt magic this (argv.map JsArg.defaulted)

-- A call goes on as if the conversions that threw had answered 0.
theorem run_defaulted (heap : Heap) (call : NumericCall) :
    call.defaulted.run heap = call.run heap := by
  cases call with
  | fromArray elements =>
    simp only [defaulted, run, jsBufferFromArray, List.length_map, fromElements_defaulted]
  | fromArrayBuffer buffer argv =>
    simp only [defaulted, run, jsBufferFromArrayBuffer, JsArg.argAt_defaulted,
      JsArg.jsToInt64Or_defaulted]
  | concat list totalLength =>
    simp only [defaulted, run, jsBufferConcat, JsArg.jsToInt64Or_defaulted]
  | toString this argv =>
    simp only [defaulted, run, jsBufferToString, JsArg.argAt_defaulted, JsArg.encodingOf_defaulted,
      JsArg.jsToInt64Or_defaulted]
  | slice this argv =>
    simp only [defaulted, run, jsBufferSlice, List.length_map, JsArg.argAt_defaulted,
      JsArg.isUndefined_defaulted, JsArg.jsToInt64_defaulted, JsArg.jsToInt64Or_defaulted]
  | subarray this argv =>
    simp only [defaulted, run, jsBufferSubarray, JsArg.argAt_defaulted, JsArg.jsToInt64Or_defaulted]
  | write this argv =>
    simp only [defaulted, run, jsBufferWrite, JsArg.argAt_defaulted, JsArg.encodingOf_defaulted,
      JsArg.jsToInt64Or_defaulted]
    cases argAt argv 0 <;> rfl
  | copy this argv =>
    simp only [defaulted, run, jsBufferCopy, List.length_map, JsArg.argAt_defaulted,
      JsArg.getBytes_defaulted, JsArg.jsToInt64Or_defaulted]
  | readUInt magic this argv =>
    simp only [defaulted, run, jsBufferReadUInt, JsArg.argAt_defaulted, JsArg.jsToInt64Or_defaulted]
  | writeUInt magic this argv =>
    simp only [defaulted, run, jsBufferWriteUInt, List.length_map, JsArg.argAt_defaulted,
      JsArg.jsToInt64_defaulted]

end NumericCall

/-! ## What a call leaves -/

section

variable {heap : Heap}

theorem afterAll_append (args args' : List JsArg) :
    afterAll heap (args ++ args') = afterAll (afterAll heap args) args' := List.foldl_append

theorem snd_jsToInt64Or (arg : JsArg) (default : Int) :
    (jsToInt64Or heap arg default).2 = afterAll heap (given arg) := by
  unfold jsToInt64Or given
  split <;> rfl

theorem snd_fromElements (elements : List JsArg) :
    (fromElements heap elements).2 = afterAll heap (elements.flatMap given) := by
  induction elements generalizing heap with
  | nil => rfl
  | cons v rest ih =>
    rw [List.flatMap_cons, afterAll_append, ← snd_jsToInt64Or v 0, ← ih, fromElements]

end

namespace NumericCall

/-- The call leaves exactly what its conversions leave. -/
def ReadsOnly (heap : Heap) (call : NumericCall) : Prop :=
  (call.run heap).heap = afterAll heap (call.conversions heap)

section

variable (heap : Heap) (this : JsArg) (argv : List JsArg)

theorem fromArray_readsOnly (elements : List JsArg) :
    (NumericCall.fromArray elements).ReadsOnly heap := by
  unfold ReadsOnly
  by_cases hlen : elements.length ≤ maxByteLength
  · simp only [run, Ran.map, jsBufferFromArray, jsBufferCreate_ok hlen, conversions, if_pos hlen,
      snd_fromElements]
  · obtain ⟨e, he⟩ := jsBufferCreate_throws (Nat.lt_of_not_le hlen)
    simp only [run, Ran.map, jsBufferFromArray, he, conversions, if_neg hlen]
    rfl

theorem fromArrayBuffer_readsOnly (buffer : Nat) :
    (NumericCall.fromArrayBuffer buffer argv).ReadsOnly heap := by
  unfold ReadsOnly
  cases hlive : (heap buffer).detached with
  | true =>
    simp only [run, Ran.map, jsBufferFromArrayBuffer, conversions, hlive, if_true]
    rfl
  | false =>
    simp only [run, Ran.map, jsBufferFromArrayBuffer, conversions, hlive, Bool.false_eq_true,
      if_false, afterAll_append]
    split <;> simp only [snd_jsToInt64Or]

theorem concat_readsOnly (list : JsArray) (totalLength : JsArg) :
    (NumericCall.concat list totalLength).ReadsOnly heap := by
  unfold ReadsOnly
  by_cases hempty : list.elements.length = 0
  · simp only [run, Ran.map, jsBufferConcat, conversions, if_pos hempty]
    rfl
  · simp only [run, Ran.map, jsBufferConcat, conversions, if_neg hempty]
    split <;> simp only [snd_jsToInt64Or]

theorem toString_readsOnly :
    (NumericCall.toString this argv).ReadsOnly heap := by
  unfold ReadsOnly
  cases hget : jsBufferGetBytes heap this with
  | none =>
    simp only [run, Ran.map, jsBufferToString, conversions, hget, Option.isSome_none,
      Bool.false_eq_true, if_false]
    rfl
  | some p =>
    simp only [run, Ran.map, jsBufferToString, conversions, hget, Option.isSome_some, if_true,
      afterAll_append]
    split <;> simp only [snd_jsToInt64Or]

theorem slice_readsOnly :
    (NumericCall.slice this argv).ReadsOnly heap := by
  unfold ReadsOnly
  cases hget : jsBufferGetBytes heap this with
  | none =>
    simp only [run, Ran.map, jsBufferSlice, conversions, hget, Option.isSome_none,
      Bool.false_eq_true, if_false]
    rfl
  | some src =>
    simp only [run, Ran.map, jsBufferSlice, conversions, hget, Option.isSome_some, if_true,
      afterAll_append]
    by_cases hfirst : argv.length ≥ 1 ∧ ¬ (argAt argv 1).isUndefined = true
    · simp only [if_pos hfirst]
      split <;> simp only [snd_jsToInt64Or] <;> rfl
    · simp only [if_neg hfirst]
      split <;> simp only [snd_jsToInt64Or] <;> rfl

theorem subarray_readsOnly :
    (NumericCall.subarray this argv).ReadsOnly heap := by
  unfold ReadsOnly
  cases hget : jsGetTypedArrayBuffer heap this with
  | none =>
    simp only [run, Ran.map, jsBufferSubarray, conversions, hget, Option.isSome_none,
      Bool.false_eq_true, if_false]
    rfl
  | some ta =>
    simp only [run, Ran.map, jsBufferSubarray, conversions, hget, Option.isSome_some, if_true,
      afterAll_append]
    split
    · simp only [snd_jsToInt64Or]
    · split <;> simp only [snd_jsToInt64Or]

theorem readUInt_readsOnly (magic : Nat) :
    (NumericCall.readUInt magic this argv).ReadsOnly heap := by
  unfold ReadsOnly
  cases hget : jsBufferGetBytes heap this with
  | none =>
    simp only [run, Ran.map, jsBufferReadUInt, conversions, hget, Option.isSome_none,
      Bool.false_eq_true, if_false]
    rfl
  | some p =>
    simp only [run, Ran.map, jsBufferReadUInt, conversions, hget, Option.isSome_some, if_true]
    split <;> simp only [snd_jsToInt64Or]

/-- Apart from at most one write of its own, a call leaves what its conversions leave. -/
def Leaves (before after : Heap) : Prop :=
  after = before ∨ ∃ (v : View) (start : Nat) (src : List UInt8), after = v.write before start src

theorem write_leaves :
    Leaves (afterAll heap ((NumericCall.write this argv).conversions heap))
      ((NumericCall.write this argv).run heap).heap := by
  cases hfirst : argAt argv 0 with
  | string text n =>
    cases hbytes : jsBufferStringToBytes (jsToCStringLen text) (encodingOf (argAt argv 3)) with
    | abort | throw =>
      left
      simp only [run, Ran.map, jsBufferWrite, conversions, hfirst, hbytes]
      rfl
    | ok decoded =>
      cases decoded with
      | none =>
        left
        simp only [run, Ran.map, jsBufferWrite, conversions, hfirst, hbytes]
        rfl
      | some bytes =>
        cases hget : jsBufferGetBytes heap this with
        | none =>
          left
          simp only [run, Ran.map, jsBufferWrite, conversions, hfirst, hbytes, hget,
            Option.isSome_none, Bool.false_eq_true, if_false]
          rfl
        | some dst =>
          simp only [run, Ran.map, jsBufferWrite, conversions, hfirst, hbytes, hget,
            Option.isSome_some, if_true, afterAll_append]
          split
          · left
            simp only [snd_jsToInt64Or]
          · right
            simp only [snd_jsToInt64Or]
            exact ⟨_, _, _, rfl⟩
  | undefined | number | object =>
    left
    simp only [run, Ran.map, jsBufferWrite, conversions, hfirst]
    rfl

theorem copy_leaves :
    Leaves (afterAll heap ((NumericCall.copy this argv).conversions heap))
      ((NumericCall.copy this argv).run heap).heap := by
  by_cases hlive : (jsBufferGetBytes heap this).isSome ∧
      (jsBufferGetBytes heap (argAt argv 0)).isSome
  · have hcount : ¬ argv.length < 1 := by
      intro hnone
      rw [List.length_eq_zero_iff.mp (by omega : argv.length = 0)] at hlive
      exact absurd hlive.2 Bool.false_ne_true
    obtain ⟨src, hsrc⟩ := Option.isSome_iff_exists.mp hlive.1
    obtain ⟨tgt, htgt⟩ := Option.isSome_iff_exists.mp hlive.2
    simp only [run, Ran.map, jsBufferCopy, conversions, if_neg hcount, hsrc, htgt,
      Option.isSome_some, and_self, if_true, afterAll_append]
    unfold copyRange
    dsimp only
    split
    · right
      simp only [snd_jsToInt64Or]
      exact ⟨_, _, _, rfl⟩
    · left
      simp only [snd_jsToInt64Or]
  · left
    simp only [run, Ran.map, jsBufferCopy, conversions, if_neg hlive]
    split
    · rfl
    · split
      next src tgt hsrc htgt => exact absurd ⟨by rw [hsrc]; rfl, by rw [htgt]; rfl⟩ hlive
      next => rfl

theorem writeUInt_leaves (magic : Nat) :
    Leaves (afterAll heap ((NumericCall.writeUInt magic this argv).conversions heap))
      ((NumericCall.writeUInt magic this argv).run heap).heap := by
  cases hget : jsBufferGetBytes heap this with
  | none =>
    left
    simp only [run, Ran.map, jsBufferWriteUInt, conversions, hget, Option.isSome_none,
      Bool.false_eq_true, false_and, if_false]
    rfl
  | some p =>
    by_cases hcount : argv.length < 2
    · left
      simp only [run, Ran.map, jsBufferWriteUInt, conversions, hget, if_pos hcount,
        if_neg (fun h : _ ∧ 2 ≤ argv.length ↦ absurd h.2 (Nat.not_le_of_lt hcount))]
      rfl
    · simp only [run, Ran.map, jsBufferWriteUInt, conversions, hget, if_neg hcount,
        Option.isSome_some, Nat.le_of_not_lt hcount, and_self, if_true]
      split
      · exact .inl rfl
      · exact .inr ⟨_, _, _, rfl⟩

end

-- What `conversions` lists is what the call performs.
theorem run_leaves (heap : Heap) (call : NumericCall) :
    Leaves (afterAll heap (call.conversions heap)) (call.run heap).heap := by
  cases call with
  | fromArray elements => exact .inl (fromArray_readsOnly heap elements)
  | fromArrayBuffer buffer argv => exact .inl (fromArrayBuffer_readsOnly heap argv buffer)
  | concat list totalLength => exact .inl (concat_readsOnly heap list totalLength)
  | toString this argv => exact .inl (toString_readsOnly heap this argv)
  | slice this argv => exact .inl (slice_readsOnly heap this argv)
  | subarray this argv => exact .inl (subarray_readsOnly heap this argv)
  | write this argv => exact write_leaves heap this argv
  | copy this argv => exact copy_leaves heap this argv
  | readUInt magic this argv => exact .inl (readUInt_readsOnly heap this argv magic)
  | writeUInt magic this argv => exact writeUInt_leaves heap this argv magic

theorem not_threwUser (heap : Heap) (call : NumericCall) : call.completion heap ≠ .threwUser := by
  unfold completion
  cases (call.run heap).result <;> (intro h; cases h)

/-- Whatever it is called with, a method goes on as if the conversions that throw had answered 0.  So
an exception ends a call as it should precisely if none of the conversions that the call performs
throws one. -/
theorem conversions_ignored (heap : Heap) (call : NumericCall) :
    call.defaulted.run heap = call.run heap ∧
      (call.Propagates heap ↔ heapAtThrow heap (call.conversions heap) = none) := by
  constructor
  · exact call.run_defaulted heap
  · constructor
    · intro h
      cases hthrow : heapAtThrow heap (call.conversions heap) with
      | none => rfl
      | some heap' => exact absurd (h heap' hthrow).1 (call.not_threwUser heap)
    · intro hnone heap' hthrow
      rw [hnone] at hthrow
      cases hthrow

/-- An object that cannot be converted to a number. -/
def unconvertible : JsArg := .object none fun heap ↦ (heap, none)

/-- `writeUInt8(unconvertible, 0)` returns normally and overwrites the byte with 0. -/
theorem write_unconvertible :
    ¬ ∀ (heap : Heap) (call : NumericCall), call.Propagates heap := by
  intro h
  have hcall := h (storeOf [7] (by decide))
    (.writeUInt (8 <<< 4) (View.arg ⟨0, 0, 1, false, by decide⟩) [unconvertible, .number 0])
    (storeOf [7] (by decide)) rfl
  have hbyte := congrFun hcall.2 0
  have hdata := congrArg ArrayBuffer.data hbyte
  revert hdata
  decide

end NumericCall

end QNode.Buffer
