import ScriptBridge.Binding.Binder
import ScriptBridge.TypeScript.Grammar

/-!
# The ambient names

The names that every module can use without importing them: the standard library of AiScript and the
interface of its host. They are declarations in TypeScript, read by the same parser and binder as all
other text, and form the outermost scope.

* `languageDeclarations`, `hostDeclarations`: the declarations.
* `ambient`: their scope, the symbols they make, and the first node identity that is left.
* `bindText`: a text read and bound among them.
-/

namespace ScriptBridge.Binding

open ScriptBridge.TypeScript

/-- What the language itself provides. -/
def languageDeclarations : String := "
interface Array<T> \x7b
    [n: number]: T;
    len: number
    at(index: number): T | null
    push(item: T): void
    pop(): T | null
    concat(array: T[]): T[]
    map<U>(func: (item: T, index: number) => U): U[]
    filter(func: (item: T, index: number) => boolean): T[]
    reduce<U>(func: (accumulator: U, current: T, index: number) => U, initial: U): U
    sort(comparator?: (a: T, b: T) => number): T[]
    reverse(): T[]
    join(separator?: string): string
    find(func: (item: T, index: number) => boolean): T | null
    incl(item: T): boolean
    slice(begin?: number, end?: number): T[]
    copy(): T[]
\x7d

interface Boolean \x7b \x7d

interface Function \x7b \x7d

interface Number \x7b
    to_str(): string
    to_hex(): string
\x7d

interface Object \x7b
    [key: string]: any
\x7d

interface String \x7b
    len: number
    to_num(): number | null
    to_arr(): string[]
    to_unicode_arr(): string[]
    to_unicode_codepoint_arr(): number[]
    to_char_arr(): string[]
    to_charcode_arr(): string[]
    to_utf8_byte_arr(): number[]
    pick(i: number): string | null
    incl(keyword: string): boolean
    starts_with(prefix: string, start_index?: number): boolean
    ends_with(suffix: string, end_index?: number): boolean
    slice(begin?: number, end?: number): string
    split(splitter: string): string[]
    replace(old: string, _new: string): string
    index_of(search: string, fromIndex?: number): number
    pad_start(width: number, pad?: string): string
    trim(): string
    upper(): string
    lower(): string
\x7d

declare namespace Core \x7b
    const v: string
    function type(v: any): string
    function to_str(v: any): string
    function range(a: number, b: number): number[]
    function sleep(time: number): void
    function abort(message: string): never
\x7d

declare namespace Math \x7b
    const Infinity: number
    const E: number
    const LN2: number
    const LN10: number
    const LOG2E: number
    const LOG10E: number
    const PI: number
    const SQRT1_2: number
    const SQRT2: number

    function abs(x: number): number
    function sign(x: number): number
    function round(x: number): number
    function ceil(x: number): number
    function floor(x: number): number
    function trunc(x: number): number
    function min(a: number, b: number): number
    function max(a: number, b: number): number
    function sqrt(x: number): number
    function cbrt(x: number): number
    function hypot(x: number, y: number): number
    function rnd(): number
    function rnd(min: number, max: number): number

    function sin(x: number): number
    function cos(x: number): number
    function tan(x: number): number
    function asin(x: number): number
    function acos(x: number): number
    function atan(x: number): number
    function atan2(y: number, x: number): number

    function sinh(x: number): number
    function cosh(x: number): number
    function tanh(x: number): number
    function asinh(x: number): number
    function acosh(x: number): number
    function atanh(x: number): number

    function pow(base: number, exponent: number): number
    function exp(x: number): number
    function expm1(x: number): number
    function log(x: number): number
    function log1p(x: number): number
    function log10(x: number): number
    function log2(x: number): number
\x7d

declare namespace Util \x7b
    function uuid(): string
\x7d

declare namespace Json \x7b
    function stringify(v: any): string
    function parse(json: string): any
    function parsable(str: string): boolean
\x7d

declare namespace Date \x7b
    function now(): number
    function year(date?: number): number
    function month(date?: number): number
    function day(date?: number): number
    function hour(date?: number): number
    function minute(date?: number): number
    function second(date?: number): number
    function parse(date: string): number
    function to_iso_str(date?: number): string
\x7d

declare namespace Str \x7b
    const lf: string
    function lt(a: string, b: string): number
    function gt(a: string, b: string): number
    function from_codepoint(codepoint: number): string
    function from_unicode_codepoints(codepoints: number[]): string
    function from_utf8_bytes(bytes: number[]): string
\x7d

declare namespace Num \x7b
    function from_hex(hex: string): number
\x7d

declare namespace Uri \x7b
    function encode_full(uri: string): string
    function decode_component(encoded_text: string): string
\x7d

declare namespace Obj \x7b
    function keys<T extends Object>(v: T): keyof T[]
    function vals<T extends Object>(v: T): T[keyof T][]
    function kvs<T extends Object>(v: T): [string, T[keyof T]][]
    function get(v: object, key: string): any
    function set(v: object, key: string, val: any): object
    function has(v: object, key: string): boolean
    function copy(v: object): object
    function merge(a: object, b: object): object
\x7d

declare namespace Arr \x7b
    function create(length: number, initial?: any): any[]
\x7d

declare namespace Async \x7b
    function interval(interval: number, callback: () => void, immediate?: boolean): void
    function timeout(delay: number, callback: () => void): void
\x7d

declare function print(message: string): void;
declare function readline(message: string): string;
"

/-- What the host of a script provides. -/
def hostDeclarations : String := "
declare const USER_ID: string;
declare const USER_NAME: string;
declare const USER_USERNAME: string;
declare const CUSTOM_EMOJIS: \x7b
    aliases: string[];
    name: string;
    category: string | null;
    url: string;
    localOnly?: boolean;
    isSensitive?: boolean;
\x7d[];
declare const LOCALE: string;
declare const SERVER_URL: string;
declare const THIS_ID: string;
declare const THIS_URL: string;

declare namespace Mk \x7b
    function dialog(title: string, text: string, type?: \"info\" | \"success\" | \"warning\" | \"error\" | \"question\"): void;
    function toast(text: string): void;
    function confirm(title: string, text: string, type?: \"info\" | \"success\" | \"warning\" | \"error\" | \"question\"): boolean;
    function api(endpoint: string, params: \x7b [key: string]: any \x7d, token?: string): any;
    function save(key: string, value: any): void;
    function load(key: string): any;
    function remove(key: string): void;
    function url(): string;
    function nyaize(text: string): string;
\x7d

type Component<T> = \x7b
    id: string;
    update(props: T): void;
\x7d;

declare namespace Ui \x7b
    const root: Component<Root>;
    function render(components: Component<any>[]): void;
    function get<T>(id: string): Component<T>;

    type Font = \"serif\" | \"sans-serif\" | \"monospace\";
    type Root = \x7b
        children: Component<any>[];
    \x7d;
    type Container = \x7b
        children: Component<any>[];
        align?: \"left\" | \"center\" | \"right\";
        bgColor?: string;
        fgColor?: string;
        font?: Font;
        borderWidth?: number;
        borderColor?: string;
        borderStyle?: \"solid\";
        padding?: number;
        rounded?: boolean;
        borderRadius?: number;
        hidden?: boolean;
    \x7d;
    type Folder = \x7b
        children: Component<any>[];
        title: string;
        opened?: boolean;
    \x7d;
    type Text = \x7b
        text: string;
        size?: number;
        bold?: boolean;
        color?: string;
        font?: Font;
    \x7d;
    type Mfm = \x7b
        text: string;
        size?: number;
        bold?: boolean;
        color?: string;
        font?: Font;
        onClickEv?: (id: string) => void;
    \x7d;
    type Button = \x7b
        text: string;
        onClick: () => void;
        primary?: boolean;
        rounded?: boolean;
        disabled?: boolean;
    \x7d;
    type Buttons = \x7b
        buttons: Button[];
    \x7d;
    type Switch = \x7b
        onChange: (enabled: boolean) => void;
        default: boolean;
        label: string;
        caption?: string;
    \x7d;
    type TextInput = \x7b
        onInput: (text: string) => void;
        default: string;
        label?: string;
        caption?: string;
    \x7d;
    type Textarea = \x7b
        onInput: (text: string) => void;
        default: string;
        label?: string;
        caption?: string;
    \x7d;
    type Select<T> = \x7b
        items: \x7b text: string; value: T \x7d[];
        onChange: (value: T) => void;
        default: T;
        label?: string;
        caption?: string;
    \x7d;
    type PostForm = \x7b
        form: \x7b
            text: string;
            cw?: string;
            visibility?: \"home\" | \"public\";
            localOnly?: boolean;
        \x7d;
    \x7d;
    type PostFormButton = PostForm & \x7b
        text: string;
        primary?: boolean;
        rounded?: boolean;
    \x7d;
    const C: \x7b
        container(props: Container): Component<Container>;
        folder(props: Folder): Component<Folder>;
        text(props: Text): Component<Text>;
        mfm(props: Mfm): Component<Mfm>;
        button(props: Button): Component<Button>;
        buttons(props: Buttons): Component<Buttons>;
        switch(props: Switch): Component<Switch>;
        textInput(props: TextInput): Component<TextInput>;
        textarea(props: Textarea): Component<Textarea>;
        select<T>(props: Select<T>): Component<Select<T>>;
        postForm(props: PostForm): Component<PostForm>;
        postFormButton(props: PostFormButton): Component<PostFormButton>;
    \x7d;
\x7d
"

/-- The name that stands for the file of the ambient declarations. -/
def ambientName : String := "<prelude>"

/-- The ambient names: their scope, all symbols so far, and the next free node identity. -/
structure Ambient where
  file : BoundFile
  bindings : Bindings
  nextId : Nat
deriving Inhabited

/-- Reads and binds ambient declarations. -/
def readAmbient (text : String) : Option Ambient :=
  match parseFrom 0 ambientName text with
  | .error _ => none
  | .ok (source, nextId) =>
    match bindFile source none {} with
    | .ok file bindings => some { file, bindings, nextId }
    | .error _ _ => none

/-- The ambient names. -/
def ambient : Ambient :=
  (readAmbient (languageDeclarations ++ hostDeclarations)).getD default

/-- Why a text could not be read and bound. -/
inductive TextFault where
  | syntactic (fault : SyntaxFault)
  | binding (fault : BindFault)
deriving DecidableEq, Repr

/-- The wording and the place of a fault, if it has a place in the text. -/
def TextFault.placed? : TextFault → Option (String × Nat × Nat)
  | .syntactic (.lexical (.placed cause line col)) => some (cause.message, line, col)
  | .syntactic (.parse (.grammar cause line col)) => some (cause.message, line, col)
  | .binding (.placed cause line col) => some (cause.message, line, col)
  | _ => none

/-- Reads and binds a text in the scope of the ambient names. Nodes are numbered from `firstId`, and
the next free number is given back. -/
def bindText (firstId : Nat) (bindings : Bindings) (fileName text : String) :
    Except TextFault (BoundFile × Bindings × Nat) :=
  match parseFrom firstId fileName text with
  | .error fault => .error (.syntactic fault)
  | .ok (source, nextId) =>
    match bindFile source (some ambient.file.scope) bindings with
    | .ok file bindings => .ok (file, bindings, nextId)
    | .error fault _ => .error (.binding fault)

end ScriptBridge.Binding
