import CCompletion.Text.Basic

/-!
The words of C that are offered everywhere: keywords, builtin types, directives, the standard headers
with the functions they declare, member names for want of better ones, and code templates.
-/

namespace CCompletion.Vocabulary

def texts (words : List String) : List Text := words.map Text.ofString

def keywords : List Text := texts
  ["auto", "break", "case", "char", "const", "continue", "default", "do", "double", "else", "enum",
   "extern", "float", "for", "goto", "if", "inline", "int", "long", "register", "restrict", "return",
   "short", "signed", "sizeof", "static", "struct", "switch", "typedef", "union", "unsigned", "void",
   "volatile", "while", "_Alignas", "_Alignof", "_Atomic", "_Bool", "_Complex", "_Generic",
   "_Imaginary", "_Noreturn", "_Static_assert", "_Thread_local"]

def builtinTypes : List Text := texts
  ["int", "char", "void", "float", "double", "short", "long", "unsigned", "signed", "bool", "_Bool",
   "_Complex", "_Imaginary", "size_t", "ssize_t", "ptrdiff_t", "intptr_t", "uintptr_t", "wchar_t",
   "FILE", "fpos_t", "time_t", "clock_t", "va_list", "jmp_buf", "div_t", "ldiv_t", "int8_t",
   "int16_t", "int32_t", "int64_t", "uint8_t", "uint16_t", "uint32_t", "uint64_t"]

def directives : List Text := texts
  ["include", "define", "undef", "ifdef", "ifndef", "if", "else", "elif", "endif", "error", "pragma",
   "line"]

def standardHeaders : List Text := texts
  ["assert.h", "ctype.h", "errno.h", "float.h", "limits.h", "locale.h", "math.h", "setjmp.h",
   "signal.h", "stdio.h", "stdlib.h", "string.h", "time.h"]

/-- Offered after a dot or an arrow, whatever stands before it. -/
def memberNames : List Text := texts ["data", "length", "next", "prev", "size", "value"]

/-- The functions that a header declares. -/
def libraryTable : List (Text × List Text) :=
  [("stdio.h", texts
      ["printf", "scanf", "fprintf", "fscanf", "sprintf", "sscanf", "snprintf", "vprintf", "vfprintf",
       "vsprintf", "vsnprintf", "fopen", "freopen", "fclose", "fflush", "fread", "fwrite", "fseek",
       "ftell", "rewind", "fgetpos", "fsetpos", "fgetc", "fgets", "fputc", "fputs", "getc", "getchar",
       "putc", "putchar", "puts", "ungetc", "feof", "ferror", "clearerr", "perror", "remove", "rename",
       "tmpfile", "tmpnam", "setbuf", "setvbuf"]),
   ("stdlib.h", texts
      ["malloc", "calloc", "realloc", "free", "atoi", "atol", "atoll", "atof", "strtol", "strtoll",
       "strtoul", "strtoull", "strtod", "strtof", "rand", "srand", "exit", "abort", "atexit",
       "quick_exit", "system", "getenv", "bsearch", "qsort", "abs", "labs", "llabs", "div", "ldiv"]),
   ("string.h", texts
      ["memcpy", "memset", "memmove", "memcmp", "memchr", "strlen", "strcpy", "strncpy", "strcat",
       "strncat", "strcmp", "strncmp", "strcoll", "strxfrm", "strchr", "strrchr", "strstr", "strspn",
       "strcspn", "strpbrk", "strtok", "strerror"]),
   ("math.h", texts
      ["sin", "cos", "tan", "asin", "acos", "atan", "atan2", "sinh", "cosh", "tanh", "exp", "log",
       "log10", "log2", "pow", "sqrt", "cbrt", "hypot", "ceil", "floor", "round", "trunc", "fabs",
       "fmod", "frexp", "ldexp", "modf"]),
   ("time.h", texts
      ["time", "clock", "difftime", "mktime", "localtime", "gmtime", "strftime", "asctime", "ctime"]),
   ("ctype.h", texts
      ["isalnum", "isalpha", "isblank", "iscntrl", "isdigit", "isgraph", "islower", "isprint",
       "ispunct", "isspace", "isupper", "isxdigit", "tolower", "toupper"]),
   ("setjmp.h", texts ["setjmp", "longjmp"]),
   ("signal.h", texts ["signal", "raise"]),
   ("assert.h", texts ["assert"]),
   ("locale.h", texts ["setlocale", "localeconv"])]

/-- Code templates by name. -/
def snippetTable : List (Text × Text) :=
  [("main", "int main(int argc, char *argv[]) \x7b\n    \n    return 0;\n\x7d"),
   ("for", "for (int i = 0; i < n; i++) \x7b\n    \n\x7d"),
   ("while", "while (condition) \x7b\n    \n\x7d"),
   ("do", "do \x7b\n    \n\x7d while (condition);"),
   ("if", "if (condition) \x7b\n    \n\x7d"),
   ("ifelse", "if (condition) \x7b\n    \n\x7d else \x7b\n    \n\x7d"),
   ("switch",
    "switch (expression) \x7b\n    case value1:\n        // code\n        break;\n    case value2:\n        // code\n        break;\n    default:\n        // code\n        break;\n\x7d"),
   ("struct", "struct name \x7b\n    // members\n\x7d;"),
   ("function",
    "return_type function_name(parameters) \x7b\n    // code\n    return value;\n\x7d"),
   ("include", "#include <stdio.h>"),
   ("printf", "printf(\"%s\\n\", );"),
   ("scanf", "scanf(\"%d\", &variable);"),
   ("malloc",
    "type *ptr = (type *)malloc(size * sizeof(type));\nif (ptr == NULL) \x7b\n    // Handle error\n\x7d"),
   ("free", "free(ptr);\nptr = NULL;")]

def isReserved (word : Text) : Bool := keywords.contains word || builtinTypes.contains word

def isStandardHeader (header : Text) : Bool := standardHeaders.contains header

def snippet? (name : Text) : Option Text := snippetTable.lookup name

def snippetNames : List Text := snippetTable.map (·.1)

/-- Names that the header table answers to although they are no headers: asked for one of them it has
something to show, but no list of functions. -/
def unlistedNames : List Text := texts
  ["constructor", "__defineGetter__", "__defineSetter__", "hasOwnProperty", "__lookupGetter__",
   "__lookupSetter__", "isPrototypeOf", "propertyIsEnumerable", "toString", "valueOf", "__proto__",
   "toLocaleString"]

/-- A name that the table answers to without having a list for it. -/
structure Unlisted where
  name : Text
deriving DecidableEq

def Unlisted.message (_ : Unlisted) : Text :=
  "Spread syntax requires ...iterable[Symbol.iterator] to be a function"

/-- The functions declared by headers, in the order of the headers. One that is not in the table declares
none. -/
def libraryFunctions : List Text → Except Unlisted (List Text)
  | [] => .ok []
  | header :: rest =>
    match libraryTable.lookup header with
    | some functions => (libraryFunctions rest).map (functions ++ ·)
    | none => if unlistedNames.contains header then .error ⟨header⟩ else libraryFunctions rest

def allLibraryFunctions : List Text := libraryTable.flatMap (·.2)

end CCompletion.Vocabulary
