/-!
# Names that need no declaration

Types and functions that every text may name, and the attributes that such types have.  A type that
is known under a second name is shown by its first one.
-/

namespace PageQuery.Known

def types : List String :=
  ["ArithmeticError", "AssertionError", "AttributeError", "BaseException",
    "BaseExceptionGroup", "BlockingIOError", "BrokenPipeError", "BufferError", "BytesWarning",
    "ChildProcessError", "ConnectionAbortedError", "ConnectionError", "ConnectionRefusedError",
    "ConnectionResetError", "DeprecationWarning", "EOFError", "EncodingWarning", "Exception",
    "ExceptionGroup", "FileExistsError", "FileNotFoundError", "FloatingPointError",
    "FutureWarning", "GeneratorExit", "ImportError", "ImportWarning", "IndentationError",
    "IndexError", "InterruptedError", "IsADirectoryError", "KeyError", "KeyboardInterrupt",
    "LookupError", "MemoryError", "ModuleNotFoundError", "NameError", "NotADirectoryError",
    "NotImplementedError", "OSError", "OverflowError", "PendingDeprecationWarning",
    "PermissionError", "ProcessLookupError", "RecursionError", "ReferenceError",
    "ResourceWarning", "RuntimeError", "RuntimeWarning", "StopAsyncIteration", "StopIteration",
    "SyntaxError", "SyntaxWarning", "SystemError", "SystemExit", "TabError", "TimeoutError",
    "TypeError", "UnboundLocalError", "UnicodeDecodeError", "UnicodeEncodeError",
    "UnicodeError", "UnicodeTranslateError", "UnicodeWarning", "UserWarning", "ValueError",
    "Warning", "ZeroDivisionError", "bool", "bytearray", "bytes", "classmethod", "complex",
    "dict", "enumerate", "filter", "float", "frozenset", "int", "list", "map", "memoryview",
    "object", "property", "range", "reversed", "set", "slice", "staticmethod", "str", "super",
    "tuple", "type", "zip"]

/-- Second names of types that need no declaration. -/
def typeAliases : List (String × String) :=
  [("EnvironmentError", "OSError"), ("IOError", "OSError")]

def functions : List String :=
  ["abs", "aiter", "all", "anext", "any", "ascii", "bin", "breakpoint", "callable", "chr",
    "compile", "delattr", "dir", "divmod", "eval", "exec", "format", "getattr", "globals",
    "hasattr", "hash", "hex", "id", "input", "isinstance", "issubclass", "iter", "len",
    "locals", "max", "min", "next", "oct", "open", "ord", "pow", "print", "repr", "round",
    "setattr", "sorted", "sum", "vars"]

def genericTypes : List String :=
  ["list", "tuple", "set", "frozenset", "dict", "type", "enumerate", "BaseExceptionGroup",
    "ExceptionGroup"]

/-- Whether a type has an attribute that is read without a call. -/
def hasPart (type name : String) : Bool :=
  match type with
  | "int" | "bool" => ["real", "imag", "numerator", "denominator"].contains name
  | "float" | "complex" => ["real", "imag"].contains name
  | _ => false

/-- The names of methods of a type that needs no declaration. -/
def methods : String → List String
  | "int" | "bool" =>
    ["as_integer_ratio", "bit_count", "bit_length", "conjugate", "from_bytes", "to_bytes"]
  | "float" =>
    ["as_integer_ratio", "conjugate", "fromhex", "hex", "is_integer"]
  | "str" =>
    ["capitalize", "casefold", "center", "count", "encode", "endswith", "expandtabs", "find",
      "format", "format_map", "index", "isalnum", "isalpha", "isascii", "isdecimal", "isdigit",
      "isidentifier", "islower", "isnumeric", "isprintable", "isspace", "istitle", "isupper",
      "join", "ljust", "lower", "lstrip", "maketrans", "partition", "removeprefix",
      "removesuffix", "replace", "rfind", "rindex", "rjust", "rpartition", "rsplit", "rstrip",
      "split", "splitlines", "startswith", "strip", "swapcase", "title", "translate", "upper",
      "zfill"]
  | "list" =>
    ["append", "clear", "copy", "count", "extend", "index", "insert", "pop", "remove",
      "reverse", "sort"]
  | "dict" =>
    ["clear", "copy", "fromkeys", "get", "items", "keys", "pop", "popitem", "setdefault",
      "update", "values"]
  | "set" =>
    ["add", "clear", "copy", "difference", "difference_update", "discard", "intersection",
      "intersection_update", "isdisjoint", "issubset", "issuperset", "pop", "remove",
      "symmetric_difference", "symmetric_difference_update", "union", "update"]
  | "frozenset" =>
    ["copy", "difference", "intersection", "isdisjoint", "issubset", "issuperset",
      "symmetric_difference", "union"]
  | "tuple" =>
    ["count", "index"]
  | _ => []

end PageQuery.Known
