import Bindery.Text.Lines

/-!
# Support headers

C++ headers that generated modules may include, and which are written beside them.

## Main definitions

* `SupportHeader` — a header with its text.
* `SupportHeader.convenience` — helpers for sequences; `SupportHeader.find?` looks a header up.
-/

namespace Bindery

/-- A C++ header that is written beside a module. -/
structure SupportHeader where
  fileName : String
  nspace : String
  code : String
  deriving DecidableEq, Repr, Inhabited

namespace SupportHeader

/-- The text of the helpers for sequences. -/
def convenienceLines : List String :=
  [
    "#ifndef __convenience_pyplusplus_hpp__",
    "#define __convenience_pyplusplus_hpp__",
    "",
    "#include \"boost/python.hpp\"",
    "#include <sstream>",
    "",
    "namespace pyplusplus\x7b namespace convenience\x7b",
    "",
    "inline void raise_error( PyObject *exception, const char *message )\x7b",
    "    PyErr_SetString( exception, message );",
    "    boost::python::throw_error_already_set();",
    "\x7d",
    "",
    "inline void ensure_sequence( boost::python::object seq, Py_ssize_t expected_length=-1 )\x7b",
    "    PyObject* seq_impl = seq.ptr();",
    "    if( !PySequence_Check( seq_impl ) )\x7b",
    "        raise_error( PyExc_TypeError, \"Sequence expected\" );",
    "    \x7d",
    "    Py_ssize_t length = PySequence_Length( seq_impl );",
    "    if( expected_length != -1 && length != expected_length )\x7b",
    "        std::stringstream err;",
    "        err << \"Expected sequence length is \" << expected_length << \". \"",
    "            << \"Actual sequence length is \" << length << \".\";",
    "        raise_error( PyExc_ValueError, err.str().c_str() );",
    "    \x7d",
    "\x7d",
    "",
    "template< class ExpectedType >",
    "void ensure_uniform_sequence( boost::python::object seq, Py_ssize_t expected_length=-1 )\x7b",
    "    ensure_sequence( seq, expected_length );",
    "    Py_ssize_t length = boost::python::len( seq );",
    "    for( Py_ssize_t index = 0; index < length; ++index )\x7b",
    "        boost::python::object item = seq[index];",
    "        boost::python::extract<ExpectedType> type_checker( item );",
    "        if( !type_checker.check() )\x7b",
    "            std::stringstream err;",
    "            err << \"Sequence should contain only items with type \\\"\"",
    "                << boost::python::type_id<ExpectedType>().name() << \"\\\". \"",
    "                << \"Item at position \" << index << \" has different type.\";",
    "            raise_error( PyExc_ValueError, err.str().c_str() );",
    "        \x7d",
    "    \x7d",
    "\x7d",
    "",
    "template< class Type >",
    "struct array_inserter_t\x7b",
    "    typedef Type value_type;",
    "",
    "    array_inserter_t( Type* array, Py_ssize_t size )",
    "    : m_array( array ), m_curr_pos( 0 ), m_size( size )",
    "    \x7b\x7d",
    "",
    "    void insert( const Type& item )\x7b",
    "        if( m_size <= m_curr_pos )\x7b",
    "            raise_error( PyExc_IndexError, \"Index out of range\" );",
    "        \x7d",
    "        m_array[ m_curr_pos ] = item;",
    "        ++m_curr_pos;",
    "    \x7d",
    "",
    "private:",
    "    Type* m_array;",
    "    Py_ssize_t m_curr_pos;",
    "    const Py_ssize_t m_size;",
    "\x7d;",
    "",
    "template< class Type >",
    "array_inserter_t<Type> array_inserter( Type* array, Py_ssize_t size )\x7b",
    "    return array_inserter_t<Type>( array, size );",
    "\x7d",
    "",
    "struct list_inserter\x7b",
    "    explicit list_inserter( boost::python::list& py_list )",
    "    : m_py_list( py_list )",
    "    \x7b\x7d",
    "",
    "    template< class Type >",
    "    void insert( const Type& item )\x7b",
    "        m_py_list.append( item );",
    "    \x7d",
    "",
    "private:",
    "    boost::python::list& m_py_list;",
    "\x7d;",
    "",
    "template< class Inserter >",
    "void copy_sequence( boost::python::object seq, Inserter inserter )\x7b",
    "    Py_ssize_t length = boost::python::len( seq );",
    "    for( Py_ssize_t index = 0; index < length; ++index )\x7b",
    "        boost::python::object item = seq[index];",
    "        inserter.insert( boost::python::extract< typename Inserter::value_type >( item ) );",
    "    \x7d",
    "\x7d",
    "",
    "template< class Iterator, class Inserter >",
    "void copy_container( Iterator begin, Iterator end, Inserter inserter )\x7b",
    "    for( Iterator index = begin; index != end; ++index )\x7b",
    "        inserter.insert( *index );",
    "    \x7d",
    "\x7d",
    "",
    "\x7d /*convenience*/ \x7d /*pyplusplus*/",
    "",
    "#endif//__convenience_pyplusplus_hpp__",
    ""]

/-- Helpers with which sequences become arrays and back. -/
def convenience : SupportHeader where
  fileName := "__convenience.pypp.hpp"
  nspace := "pyplusplus::convenience"
  code := Text.unlines convenienceLines

/-- All support headers. -/
def all : List SupportHeader := [convenience]

/-- The support header of the given file name. -/
def find? (fileName : String) : Option SupportHeader := all.find? (·.fileName == fileName)

end SupportHeader

end Bindery
